import FormEditor.Form.Validity
import FormEditor.Proofs.Form.Lookup
import FormEditor.Proofs.Steps
import Mathlib.Data.List.Perm.Subperm

/-!
# Well-formed forms

The links of a form fit together when the root is stored and has no parent, every field is
stored under its own id, and a field is in the child list of another exactly when it names that
one as its parent, and then once (`Form.LinksFit`).  A form is well-formed when, besides, every
field lies at or below the root (`Form.WellFormed`).

Both walks are explained by the relation `Form.Under`, the chain of parent links: in a
well-formed form the walk upwards meets exactly the fields strictly above
(`WellFormed.mem_ancestors`), and the walk downwards exactly those at and below
(`WellFormed.mem_descendants`).  The number of fields bounds the length of every chain, so
neither walk is cut short.

Main statement: `Form.validate` accepts exactly the well-formed forms (`validate_eq_ok_iff`).
-/

set_option autoImplicit false

namespace FormEditor.Form

/-! ## Chains of parents -/

/-- `Under top id` says that parent links lead from `id` up to `top`, in no step or more. -/
inductive Under (form : Form) (top : NodeId) : NodeId → Prop where
  | here : Under form top top
  | step {id parent : NodeId} :
      form.parent? id = some parent → Under form top parent → Under form top id

/-- `Beneath top id` says that parent links lead from `id` up to `top`, in one step or more. -/
def Beneath (form : Form) (top id : NodeId) : Prop :=
  ∃ parent, form.parent? id = some parent ∧ form.Under top parent

/-- The links of a form agree with each other; fields out of reach of the root are allowed. -/
structure LinksFit (form : Form) : Prop where
  root_stored : form.contains form.root
  root_top : form.parent? form.root = none
  own_id : ∀ {id : NodeId} {field : Field}, form.get? id = some field → field.id = id
  listed_iff : ∀ {parent child : NodeId},
    child ∈ form.children parent ↔ form.parent? child = some parent
  nodup : ∀ parent : NodeId, (form.children parent).Nodup

/-- The links of a form agree, and every field lies at or below the root. -/
structure WellFormed (form : Form) : Prop extends LinksFit form where
  reached : ∀ {id : NodeId}, form.contains id → form.Under form.root id

variable {form : Form} {top id other parent child : NodeId}

theorem Under.trans {middle : NodeId} (upper : form.Under top middle)
    (lower : form.Under middle id) : form.Under top id := by
  induction lower with
  | here => exact upper
  | step above _ ih => exact .step above ih

theorem Under.of_parent (above : form.parent? id = some parent) : form.Under parent id :=
  .step above .here

theorem Under.eq_or_beneath (under : form.Under top id) : id = top ∨ form.Beneath top id := by
  cases under with
  | here => exact .inl rfl
  | step above rest => exact .inr ⟨_, above, rest⟩

theorem Beneath.under (beneath : form.Beneath top id) : form.Under top id := by
  obtain ⟨parent, above, rest⟩ := beneath
  exact .step above rest

theorem Beneath.of_under_parent (above : form.parent? id = some parent)
    (under : form.Under top parent) : form.Beneath top id :=
  ⟨parent, above, under⟩

theorem Beneath.trans_under {middle : NodeId} (upper : form.Beneath top middle)
    (lower : form.Under middle id) : form.Beneath top id := by
  rcases lower.eq_or_beneath with same | ⟨parent, above, rest⟩
  · exact same ▸ upper
  · exact ⟨parent, above, upper.under.trans rest⟩

theorem Under.trans_beneath {middle : NodeId} (upper : form.Under top middle)
    (lower : form.Beneath middle id) : form.Beneath top id := by
  obtain ⟨parent, above, rest⟩ := lower
  exact ⟨parent, above, upper.trans rest⟩

/-- What lies under a field of the form is a field of the form. -/
theorem Under.contains (under : form.Under top id) (stored : form.contains top) :
    form.contains id := by
  cases under with
  | here => exact stored
  | step above _ => exact contains_of_parent? above

/-- Of two fields above a third, one is above the other. -/
theorem Under.comparable (first : form.Under top id) (second : form.Under other id) :
    form.Under top other ∨ form.Under other top := by
  induction first with
  | here => exact .inr second
  | step above rest ih =>
    cases second with
    | here => exact .inl (.step above rest)
    | step above' rest' =>
      obtain rfl : _ = _ := Option.some.inj (above.symm.trans above')
      exact ih rest'

/-- Nothing in reach of a field without a parent lies beneath itself. -/
theorem Under.not_beneath_self (topmost : form.parent? top = none) (under : form.Under top id) :
    ¬ form.Beneath id id := by
  induction under with
  | here =>
    rintro ⟨parent, above, -⟩
    rw [topmost] at above
    cases above
  | @step id parent above _ ih =>
    rintro ⟨parent', above', rest⟩
    obtain rfl : parent = parent' := Option.some.inj (above.symm.trans above')
    rcases rest.eq_or_beneath with same | lower
    · exact ih ⟨id, same ▸ above, same ▸ .here⟩
    · exact ih (Under.trans_beneath (.of_parent above) lower)

namespace LinksFit

variable (fits : form.LinksFit)
include fits

theorem contains_parent (above : form.parent? id = some parent) : form.contains parent :=
  contains_of_mem_children (fits.listed_iff.mpr above)

theorem mem_children (above : form.parent? id = some parent) : id ∈ form.children parent :=
  fits.listed_iff.mpr above

theorem parent?_eq (listed : child ∈ form.children parent) : form.parent? child = some parent :=
  fits.listed_iff.mp listed

theorem contains_child (listed : child ∈ form.children parent) : form.contains child :=
  contains_of_parent? (fits.parent?_eq listed)

theorem ne_root (above : form.parent? id = some parent) : id ≠ form.root := by
  intro same
  rw [same, fits.root_top] at above
  cases above

theorem contains_top (under : form.Under top id) (stored : form.contains id) :
    form.contains top := by
  induction under with
  | here => exact stored
  | step above _ ih => exact ih (fits.contains_parent above)

/-- The index of a field among its siblings. -/
theorem exists_siblingIndex? (above : form.parent? id = some parent) :
    ∃ index, form.siblingIndex? id = some index ∧ (form.children parent)[index]? = some id := by
  have listed := fits.mem_children above
  obtain ⟨index, found⟩ := Option.isSome_iff_exists.mp (List.isSome_idxOf?.mpr listed)
  refine ⟨index, ?_, ?_⟩
  · simp only [siblingIndex?, above, Option.bind_some, found]
  · obtain ⟨inside, here, -⟩ := List.idxOf?_eq_some_iff.mp found
    rw [List.getElem?_eq_getElem inside, here]

/-- A field that stands at an index of its parent's child list has that sibling index. -/
theorem siblingIndex?_eq {index : Nat} (here : (form.children parent)[index]? = some child) :
    form.siblingIndex? child = some index := by
  have above := fits.parent?_eq (List.mem_of_getElem? here)
  obtain ⟨found, same, there⟩ := fits.exists_siblingIndex? above
  have inside : index < (form.children parent).length := (List.getElem?_eq_some_iff.mp here).1
  rw [same, (List.getElem?_inj inside (fits.nodup parent)).mp (here.trans there.symm)]

end LinksFit

namespace WellFormed

variable (wellFormed : form.WellFormed)
include wellFormed

theorem not_beneath_self : ¬ form.Beneath id id := by
  rintro ⟨parent, above, rest⟩
  have stored := contains_of_parent? above
  exact (wellFormed.reached stored).not_beneath_self wellFormed.root_top ⟨parent, above, rest⟩

theorem eq_of_under_of_under (upper : form.Under top id) (lower : form.Under id top) :
    id = top := by
  rcases upper.eq_or_beneath with same | beneath
  · exact same
  · exact absurd (lower.trans_beneath beneath) wellFormed.not_beneath_self

theorem not_under_of_beneath (beneath : form.Beneath top id) : ¬ form.Under id top :=
  fun lower => wellFormed.not_beneath_self (beneath.trans_under lower)

theorem not_under_of_listed (listed : child ∈ form.children parent) : ¬ form.Under child parent :=
  wellFormed.not_under_of_beneath (.of_under_parent (wellFormed.parent?_eq listed) .here)

theorem ne_of_beneath (beneath : form.Beneath top id) : id ≠ top :=
  fun same => wellFormed.not_beneath_self (same ▸ beneath)

/-- Only the root has no parent. -/
theorem exists_parent (stored : form.contains id) (inner : id ≠ form.root) :
    ∃ parent, form.parent? id = some parent := by
  rcases (wellFormed.reached stored).eq_or_beneath with same | ⟨parent, above, -⟩
  · exact absurd same inner
  · exact ⟨parent, above⟩

/-- Every field but the root is listed among the children of another. -/
theorem exists_siblings (stored : form.contains id) (inner : id ≠ form.root) :
    ∃ upper left right, form.children upper = left ++ id :: right := by
  obtain ⟨upper, above⟩ := wellFormed.exists_parent stored inner
  obtain ⟨left, right, siblings⟩ := List.append_of_mem (wellFormed.mem_children above)
  exact ⟨upper, left, right, siblings⟩

theorem ne_parent (above : form.parent? id = some parent) : id ≠ parent :=
  wellFormed.ne_of_beneath ⟨parent, above, .here⟩

end WellFormed

/-! ## The walk upwards -/

/-- `Lineage id line` says that `line` lists `id` and all fields above it, nearest first. -/
inductive Lineage (form : Form) : NodeId → List NodeId → Prop where
  | topmost {id : NodeId} : form.parent? id = none → Lineage form id [id]
  | step {id parent : NodeId} {rest : List NodeId} :
      form.parent? id = some parent → Lineage form parent rest → Lineage form id (id :: rest)

theorem Under.exists_lineage (topmost : form.parent? top = none) (under : form.Under top id) :
    ∃ line, form.Lineage id line := by
  induction under with
  | here => exact ⟨_, .topmost topmost⟩
  | step above _ ih =>
    obtain ⟨rest, lineage⟩ := ih
    exact ⟨_, .step above lineage⟩

theorem Lineage.mem_iff {line : List NodeId} (lineage : form.Lineage id line) :
    other ∈ line ↔ form.Under other id := by
  induction lineage with
  | topmost none =>
    rw [List.mem_singleton]
    constructor
    · rintro rfl
      exact .here
    · intro under
      cases under with
      | here => rfl
      | step above _ => rw [none] at above; cases above
  | step above _ ih =>
    rw [List.mem_cons, ih]
    constructor
    · rintro (rfl | rest)
      · exact .here
      · exact .step above rest
    · intro under
      cases under with
      | here => exact .inl rfl
      | step above' rest =>
        obtain rfl : _ = _ := Option.some.inj (above.symm.trans above')
        exact .inr rest

theorem Lineage.pos {line : List NodeId} (lineage : form.Lineage id line) : 0 < line.length := by
  cases lineage <;> simp

/-- A lineage starts at a field without a parent. -/
theorem Lineage.exists_topmost {line : List NodeId} (lineage : form.Lineage id line) :
    ∃ top, form.parent? top = none ∧ form.Under top id := by
  induction lineage with
  | topmost none => exact ⟨_, none, .here⟩
  | step above _ ih =>
    obtain ⟨top, none, under⟩ := ih
    exact ⟨top, none, .step above under⟩

theorem Lineage.nodup {line : List NodeId} (lineage : form.Lineage id line) : line.Nodup := by
  induction lineage with
  | topmost => simp
  | @step id parent rest above lineage ih =>
    refine List.nodup_cons.mpr ⟨fun listed => ?_, ih⟩
    obtain ⟨top, none, under⟩ := lineage.exists_topmost
    exact (Under.step above under).not_beneath_self none
      ⟨parent, above, lineage.mem_iff.mp listed⟩

/-- The number of fields bounds the length of every chain of parents that ends. -/
theorem Lineage.length_le {line : List NodeId} (fits : form.LinksFit)
    (stored : form.contains id) (lineage : form.Lineage id line) : line.length ≤ form.size := by
  have inside : line ⊆ form.fields.keys := by
    intro other listed
    have under := lineage.mem_iff.mp listed
    obtain ⟨field, found⟩ := contains_iff.mp (fits.contains_top under stored)
    rw [Std.ExtTreeMap.mem_keys, Std.ExtTreeMap.mem_iff_isSome_getElem?]
    exact Option.isSome_of_eq_some found
  have short := lineage.nodup.length_le_of_subset inside
  rwa [Std.ExtTreeMap.length_keys] at short

/-- A walk upwards with enough steps meets the whole lineage. -/
theorem Lineage.ancestorsFrom_eq {line : List NodeId} {steps : Nat}
    (lineage : form.Lineage id line) (enough : line.length ≤ steps) :
    form.ancestorsFrom steps (some id) = line := by
  induction lineage generalizing steps with
  | topmost none =>
    obtain ⟨steps, rfl⟩ := Nat.exists_eq_succ_of_ne_zero (Nat.ne_of_gt enough)
    cases steps <;> simp [ancestorsFrom, none]
  | step above _ ih =>
    obtain ⟨steps, rfl⟩ := Nat.exists_eq_succ_of_ne_zero (Nat.ne_of_gt (Nat.zero_lt_of_lt enough))
    simp only [ancestorsFrom, above]
    rw [ih (by simpa using enough)]

/-- A field is followed by its ancestors in its lineage. -/
theorem WellFormed.lineage_ancestors (wellFormed : form.WellFormed) (id : NodeId) :
    form.Lineage id (id :: form.ancestors id) := by
  unfold ancestors
  cases above : form.parent? id with
  | none => exact .topmost above
  | some parent =>
    have stored := wellFormed.contains_parent above
    obtain ⟨line, lineage⟩ := (wellFormed.reached stored).exists_lineage wellFormed.root_top
    have short := lineage.length_le wellFormed.toLinksFit stored
    rw [lineage.ancestorsFrom_eq (Nat.le_succ_of_le short)]
    exact .step above lineage

/-- The walk upwards meets exactly the fields strictly above. -/
theorem WellFormed.mem_ancestors (wellFormed : form.WellFormed) :
    other ∈ form.ancestors id ↔ form.Beneath other id := by
  have lineage := wellFormed.lineage_ancestors id
  generalize form.ancestors id = line at lineage ⊢
  cases lineage with
  | topmost none =>
    refine iff_of_false List.not_mem_nil ?_
    rintro ⟨parent, above, -⟩
    cases none.symm.trans above
  | step above rest =>
    rw [rest.mem_iff]
    constructor
    · exact fun under => ⟨_, above, under⟩
    · rintro ⟨parent, above', under⟩
      obtain rfl : _ = _ := Option.some.inj (above.symm.trans above')
      exact under

theorem WellFormed.isAncestor_iff (wellFormed : form.WellFormed) :
    form.isAncestor top id ↔ form.Beneath top id := by
  rw [isAncestor, List.contains_iff_mem]
  exact wellFormed.mem_ancestors

/-! ## The walk downwards -/

theorem preorderFrom_succ {field : Field} {depth : Nat} (stored : form.get? id = some field) :
    form.fields.preorderFrom (depth + 1) id =
      field :: field.children.flatMap (form.fields.preorderFrom depth) := by
  have here : form.fields[id]? = some field := stored
  simp only [FieldMap.preorderFrom, here]

theorem preorderFrom_of_not_contains {depth : Nat} (missing : ¬ form.contains id) :
    form.fields.preorderFrom depth id = [] := by
  have here : form.fields[id]? = none := not_contains_iff.mp missing
  cases depth with
  | zero => rfl
  | succ depth => simp only [FieldMap.preorderFrom, here]

namespace LinksFit

/-- A walk downwards only meets stored fields at and below its start. -/
theorem of_mem_preorderFrom (fits : form.LinksFit) {depth : Nat} {field : Field}
    (met : field ∈ form.fields.preorderFrom depth id) :
    form.get? field.id = some field ∧ form.Under id field.id := by
  induction depth generalizing id with
  | zero => simp [FieldMap.preorderFrom] at met
  | succ depth ih =>
    cases stored : form.get? id with
    | none =>
      rw [preorderFrom_of_not_contains (not_contains_iff.mpr stored)] at met
      cases met
    | some top =>
      rw [preorderFrom_succ stored, List.mem_cons, List.mem_flatMap] at met
      rcases met with rfl | ⟨child, listed, met⟩
      · rw [fits.own_id stored]
        exact ⟨stored, .here⟩
      · obtain ⟨found, under⟩ := ih met
        rw [← children_of_get? stored] at listed
        exact ⟨found, (Under.of_parent (fits.parent?_eq listed)).trans under⟩

/-- A longer walk downwards meets no less. -/
theorem mem_preorderFrom_mono {depth further : Nat} {field : Field} (longer : depth ≤ further)
    (met : field ∈ form.fields.preorderFrom depth id) :
    field ∈ form.fields.preorderFrom further id := by
  induction depth generalizing id further with
  | zero => simp [FieldMap.preorderFrom] at met
  | succ depth ih =>
    obtain ⟨further, rfl⟩ := Nat.exists_eq_succ_of_ne_zero (Nat.ne_of_gt (Nat.zero_lt_of_lt longer))
    cases stored : form.get? id with
    | none =>
      rw [preorderFrom_of_not_contains (not_contains_iff.mpr stored)] at met
      cases met
    | some top =>
      rw [preorderFrom_succ stored, List.mem_cons, List.mem_flatMap] at met ⊢
      rcases met with rfl | ⟨child, listed, met⟩
      · exact .inl rfl
      · exact .inr ⟨child, listed, ih (Nat.le_of_succ_le_succ longer) met⟩

/-- A walk downwards that meets a field meets its children with one more level. -/
theorem mem_preorderFrom_child {depth : Nat} {field lower : Field}
    (met : field ∈ form.fields.preorderFrom depth id) (listed : child ∈ field.children)
    (stored : form.get? child = some lower) :
    lower ∈ form.fields.preorderFrom (depth + 1) id := by
  induction depth generalizing id with
  | zero => simp [FieldMap.preorderFrom] at met
  | succ depth ih =>
    cases start : form.get? id with
    | none =>
      rw [preorderFrom_of_not_contains (not_contains_iff.mpr start)] at met
      cases met
    | some top =>
      rw [preorderFrom_succ start, List.mem_cons, List.mem_flatMap] at met
      rw [preorderFrom_succ start, List.mem_cons, List.mem_flatMap]
      rcases met with rfl | ⟨next, nextListed, met⟩
      · refine .inr ⟨child, listed, ?_⟩
        rw [preorderFrom_succ stored]
        exact List.mem_cons_self
      · exact .inr ⟨next, nextListed, ih met⟩

/-- A field lies as many levels below another as its lineage is longer. -/
theorem mem_preorderFrom_of_under (fits : form.LinksFit) {line : List NodeId} {field : Field}
    (lineage : form.Lineage top line) (under : form.Under top id)
    (stored : form.get? id = some field) :
    ∃ path, form.Lineage id (path ++ line) ∧
      field ∈ form.fields.preorderFrom (path.length + 1) top := by
  induction under generalizing field with
  | here =>
    refine ⟨[], lineage, ?_⟩
    rw [preorderFrom_succ stored]
    exact List.mem_cons_self
  | @step id parent above _ ih =>
    obtain ⟨upper, upperStored⟩ := contains_iff.mp (fits.contains_parent above)
    obtain ⟨path, upperLineage, met⟩ := ih upperStored
    refine ⟨id :: path, .step above upperLineage, ?_⟩
    have listed : id ∈ upper.children := by
      rw [← children_of_get? upperStored]
      exact fits.mem_children above
    exact mem_preorderFrom_child met listed stored

/-- A walk down from a field in reach of the root meets no field twice. -/
theorem nodup_preorderFrom (fits : form.LinksFit) {depth : Nat}
    (reached : form.Under form.root id) :
    ((form.fields.preorderFrom depth id).map Field.id).Nodup := by
  induction depth generalizing id with
  | zero => simp [FieldMap.preorderFrom]
  | succ depth ih =>
    cases stored : form.get? id with
    | none =>
      rw [preorderFrom_of_not_contains (not_contains_iff.mpr stored)]
      exact List.nodup_nil
    | some top =>
      have acyclic := reached.not_beneath_self fits.root_top
      have parent?_eq : ∀ {child}, child ∈ top.children → form.parent? child = some id := by
        intro child listed
        rw [← children_of_get? stored] at listed
        exact fits.parent?_eq listed
      rw [preorderFrom_succ stored, List.map_cons, List.map_flatMap, fits.own_id stored]
      refine List.nodup_cons.mpr ⟨?_, List.pairwise_flatMap.mpr ⟨?_, ?_⟩⟩
      · intro again
        obtain ⟨child, listed, again⟩ := List.mem_flatMap.mp again
        obtain ⟨field, met, same⟩ := List.mem_map.mp again
        have lower := (fits.of_mem_preorderFrom met).2
        rw [same] at lower
        exact acyclic ((Beneath.of_under_parent (parent?_eq listed) .here).trans_under lower)
      · intro child listed
        exact ih (.step (parent?_eq listed) reached)
      · -- of two siblings above one field, one would be above the other, hence above itself
        have siblings : top.children.Nodup := by
          rw [← children_of_get? stored]
          exact fits.nodup id
        refine siblings.imp_of_mem ?_
        intro left right leftListed rightListed different x inLeft y inRight same
        obtain ⟨leftField, metLeft, rfl⟩ := List.mem_map.mp inLeft
        obtain ⟨rightField, metRight, rfl⟩ := List.mem_map.mp inRight
        have underLeft := (fits.of_mem_preorderFrom metLeft).2
        have underRight := (fits.of_mem_preorderFrom metRight).2
        rw [same] at underLeft
        have below : ∀ {upper lower}, upper ∈ top.children → lower ∈ top.children →
            upper ≠ lower → ¬ form.Under upper lower := by
          intro upper lower upperListed lowerListed apart under
          rcases under.eq_or_beneath with equal | ⟨parent, above, rest⟩
          · exact apart equal.symm
          · obtain rfl : id = parent :=
              Option.some.inj ((parent?_eq lowerListed).symm.trans above)
            exact acyclic
              ((Beneath.of_under_parent (parent?_eq upperListed) .here).trans_under rest)
        rcases underLeft.comparable underRight with upper | upper
        · exact below leftListed rightListed different upper
        · exact below rightListed leftListed (Ne.symm different) upper

end LinksFit

/-- The walk downwards meets exactly the fields at and below its start. -/
theorem WellFormed.mem_descendants (wellFormed : form.WellFormed) {field : Field} :
    field ∈ form.descendants id ↔ form.get? field.id = some field ∧ form.Under id field.id := by
  constructor
  · exact wellFormed.of_mem_preorderFrom
  · rintro ⟨stored, under⟩
    have topStored := wellFormed.contains_top under (contains_of_get? stored)
    obtain ⟨line, lineage⟩ := (wellFormed.reached topStored).exists_lineage wellFormed.root_top
    obtain ⟨path, lower, met⟩ := wellFormed.mem_preorderFrom_of_under lineage under stored
    have short := lower.length_le wellFormed.toLinksFit (contains_of_get? stored)
    rw [List.length_append] at short
    have pos := lineage.pos
    exact LinksFit.mem_preorderFrom_mono (show _ ≤ form.size by omega) met

/-- The walk through the whole form meets every field. -/
theorem WellFormed.mem_preorder (wellFormed : form.WellFormed) {field : Field}
    (stored : form.get? id = some field) : field ∈ form.preorder := by
  have named : field.id = id := wellFormed.own_id stored
  refine wellFormed.mem_descendants.mpr ?_
  rw [named]
  exact ⟨stored, wellFormed.reached (contains_of_get? stored)⟩

/-- The ids that the walk downwards meets. -/
theorem WellFormed.mem_descendants_ids (wellFormed : form.WellFormed) :
    other ∈ (form.descendants id).map Field.id ↔ form.contains other ∧ form.Under id other := by
  rw [List.mem_map]
  constructor
  · rintro ⟨field, met, rfl⟩
    obtain ⟨stored, under⟩ := wellFormed.mem_descendants.mp met
    exact ⟨contains_of_get? stored, under⟩
  · rintro ⟨stored, under⟩
    obtain ⟨field, found⟩ := contains_iff.mp stored
    have own := wellFormed.own_id found
    refine ⟨field, wellFormed.mem_descendants.mpr ?_, own⟩
    rw [own]
    exact ⟨found, under⟩

/-! ## Validation -/

open Question in
theorem checkChild_eq_ok_iff :
    form.checkChild parent child = .ok () ↔ form.parent? child = some parent := by
  unfold checkChild parent?
  cases stored : form.get? child with
  | none =>
    rw [field_of_not_contains (not_contains_iff.mpr stored), error_bind]
    simp
  | some field =>
    rw [field_of_get? stored, ok_bind]
    by_cases pointing : field.parent = some parent <;> simp [pointing, throw_eq, pure_eq]

open Question in
theorem checkParent_eq_ok_iff {field : Field} :
    form.checkParent field = .ok () ↔
      match field.parent with
      | some parent => form.contains parent ∧ (form.children parent).count field.id = 1
      | none => field.id = form.root := by
  unfold checkParent
  cases field.parent with
  | none => by_cases top : field.id = form.root <;> simp [top]
  | some parent =>
    dsimp only
    cases stored : form.get? parent with
    | none =>
      rw [field_of_not_contains (not_contains_iff.mpr stored), error_bind]
      simp [contains, stored]
    | some upper =>
      rw [field_of_get? stored, ok_bind, children_of_get? stored]
      have inside := contains_of_get? stored
      by_cases once : upper.children.count field.id = 1 <;> simp [once, inside, throw_eq, pure_eq]

open Question in
theorem checkField_eq_ok_iff {key : NodeId} {field : Field} :
    form.checkField key field = .ok () ↔
      field.id = key ∧ (∀ child ∈ field.children, form.parent? child = some field.id) ∧
        form.checkParent field = .ok () := by
  have children : field.children.forM (form.checkChild field.id) = .ok () ↔
      ∀ child ∈ field.children, form.checkChild field.id child = .ok () := forM_eq_ok_iff
  simp only [checkChild_eq_ok_iff] at children
  unfold checkField
  by_cases own : field.id = key
  · rw [if_neg (by simpa using own)]
    dsimp only
    rw [seq_eq_ok_iff, children]
    exact ⟨fun rest => ⟨own, rest⟩, fun rest => rest.2⟩
  · simp [own, throw_eq, error_bind]

/-- All fields pass their checks, in whatever order these are made. -/
theorem checkFields_eq_ok_iff {entries : List (NodeId × Field)}
    (order : entries.Perm form.fields.toList) :
    (entries.forM fun entry => form.checkField entry.1 entry.2) = .ok () ↔
      ∀ id field, form.get? id = some field → form.checkField id field = .ok () := by
  rw [Question.forM_eq_ok_iff]
  constructor
  · intro all id field stored
    exact all (id, field)
      (order.mem_iff.mpr (Std.ExtTreeMap.mem_toList_iff_getElem?_eq_some.mpr stored))
  · rintro all ⟨id, field⟩ listed
    exact all id field
      (Std.ExtTreeMap.mem_toList_iff_getElem?_eq_some.mp (order.mem_iff.mp listed))

open Question in
theorem validate_eq_ok_iff_checks :
    form.validate = .ok () ↔
      form.contains form.root ∧ form.parent? form.root = none ∧
        (∀ id field, form.get? id = some field → form.checkField id field = .ok ()) ∧
          form.preorder.length = form.size := by
  rw [← checkFields_eq_ok_iff (.refl form.fields.toList)]
  unfold validate
  cases form.contains form.root with
  | false => simp [throw_eq, error_bind]
  | true =>
    cases form.parent? form.root with
    | some parent => simp [throw_eq, error_bind, pure_eq]
    | none =>
      simp only [Bool.not_true, Bool.false_eq_true, if_false, Option.isSome_none, pure_eq, true_and]
      rw [seq_eq_ok_iff]
      by_cases all : form.preorder.length = form.size <;> simp [all, throw_eq]

/-- Where every field passes its check, the links agree. -/
theorem LinksFit.of_checks (rootStored : form.contains form.root)
    (rootTop : form.parent? form.root = none)
    (checked : ∀ id field, form.get? id = some field → form.checkField id field = .ok ()) :
    form.LinksFit := by
  have ownId : ∀ {id field}, form.get? id = some field → field.id = id := fun stored =>
    (checkField_eq_ok_iff.mp (checked _ _ stored)).1
  have listedOnce : ∀ {parent child}, form.parent? child = some parent →
      (form.children parent).count child = 1 := by
    intro parent child above
    obtain ⟨field, stored⟩ := contains_iff.mp (contains_of_parent? above)
    have placed := checkParent_eq_ok_iff.mp (checkField_eq_ok_iff.mp (checked _ _ stored)).2.2
    rw [parent?_of_get? stored] at above
    rw [above, ownId stored] at placed
    exact placed.2
  have pointing : ∀ {parent child}, child ∈ form.children parent →
      form.parent? child = some parent := by
    intro parent child listed
    obtain ⟨field, stored⟩ := contains_iff.mp (contains_of_mem_children listed)
    rw [children_of_get? stored] at listed
    have back := (checkField_eq_ok_iff.mp (checked _ _ stored)).2.1 child listed
    rwa [ownId stored] at back
  exact
    { root_stored := rootStored
      root_top := rootTop
      own_id := ownId
      listed_iff := ⟨pointing, fun above =>
        List.count_pos_iff.mp (by rw [listedOnce above]; exact Nat.one_pos)⟩
      nodup := fun parent => List.nodup_iff_count.mpr fun child => by
        by_cases listed : child ∈ form.children parent
        · exact Nat.le_of_eq (listedOnce (pointing listed))
        · rw [List.count_eq_zero_of_not_mem listed]
          exact Nat.zero_le _ }

theorem WellFormed.checkField_eq_ok (wellFormed : form.WellFormed) {field : Field}
    (stored : form.get? id = some field) : form.checkField id field = .ok () := by
  have own := wellFormed.own_id stored
  refine checkField_eq_ok_iff.mpr ⟨own, ?_, checkParent_eq_ok_iff.mpr ?_⟩
  · intro child listed
    rw [← children_of_get? stored] at listed
    rw [own]
    exact wellFormed.parent?_eq listed
  · cases above : field.parent with
    | none =>
      by_cases top : id = form.root
      · exact own.trans top
      · obtain ⟨parent, above'⟩ := wellFormed.exists_parent (contains_of_get? stored) top
        rw [parent?_of_get? stored, above] at above'
        cases above'
    | some parent =>
      have above' : form.parent? id = some parent := (parent?_of_get? stored).trans above
      have listed := wellFormed.mem_children above'
      refine ⟨wellFormed.contains_parent above', ?_⟩
      rw [own, (wellFormed.nodup parent).count, if_pos listed]

/-- The walk from the root meets as many fields as there are exactly if all are in its reach. -/
theorem LinksFit.length_preorder_eq_iff (fits : form.LinksFit) :
    form.preorder.length = form.size ↔
      ∀ {id}, form.contains id → form.Under form.root id := by
  have distinct : (form.preorder.map Field.id).Nodup := fits.nodup_preorderFrom .here
  have inside : form.preorder.map Field.id ⊆ form.fields.keys := by
    intro other met
    obtain ⟨field, member, rfl⟩ := List.mem_map.mp met
    rw [mem_keys_iff]
    exact contains_of_get? (fits.of_mem_preorderFrom member).1
  constructor
  · intro full id stored
    -- none is met twice, so that no field can be left out
    have short : form.fields.keys.length ≤ (form.preorder.map Field.id).length := by
      rw [List.length_map, full, Std.ExtTreeMap.length_keys]
      exact Nat.le_refl _
    have same := (List.subperm_of_subset distinct inside).perm_of_length_le short
    obtain ⟨field, member, rfl⟩ := List.mem_map.mp (same.mem_iff.mpr (mem_keys_iff.mpr stored))
    exact (fits.of_mem_preorderFrom member).2
  · intro reached
    have wellFormed : form.WellFormed := { fits with reached }
    have covers : form.fields.keys ⊆ form.preorder.map Field.id := by
      intro other listed
      have stored := mem_keys_iff.mp listed
      exact wellFormed.mem_descendants_ids.mpr ⟨stored, reached stored⟩
    have atMost := distinct.length_le_of_subset inside
    have atLeast := Std.ExtTreeMap.nodup_keys.length_le_of_subset covers
    rw [List.length_map, Std.ExtTreeMap.length_keys] at atMost atLeast
    exact Nat.le_antisymm atMost atLeast

/-- **Validation accepts exactly the well-formed forms.** -/
theorem validate_eq_ok_iff : form.validate = .ok () ↔ form.WellFormed := by
  rw [validate_eq_ok_iff_checks]
  constructor
  · rintro ⟨rootStored, rootTop, checked, full⟩
    have fits := LinksFit.of_checks rootStored rootTop checked
    exact { fits with reached := fits.length_preorder_eq_iff.mp full }
  · intro wellFormed
    exact ⟨wellFormed.root_stored, wellFormed.root_top,
      fun _ _ stored => wellFormed.checkField_eq_ok stored,
      wellFormed.toLinksFit.length_preorder_eq_iff.mpr wellFormed.reached⟩

end FormEditor.Form
