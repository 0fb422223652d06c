import FormEditor.Proofs.Bags
import FormEditor.Proofs.Form.Calls
import FormEditor.Proofs.Form.Gathering
import FormEditor.Proofs.Form.Outlines

/-!
# What copies look like

A copy of a field is a branch that mirrors what lies at and below it: same shape, same order, same
attributes, new names (`Branch.Mirrors`).  Attached to a form it is the same there, and the fields
that the form had stay as they are, except that the parent of the copies lists them as one block
(`WithCopies`).

Main statement: this is what duplicating and importing do (`copying_law`).
-/

set_option autoImplicit false

namespace FormEditor

variable {source : Form} {id key : NodeId} {ids : List NodeId} {supply supply' : Supply}
  {view : Attributes → Attributes} {rename : NodeId → NodeId} {branch : Branch}

/-! ## Mirrored fields -/

/-- A copy of a field under a new name: with the parent that is given if it is the topmost one, and
with a part of the attributes. -/
def Field.mirrored (rename : NodeId → NodeId) (view : Attributes → Attributes) (id : NodeId)
    (top : Option NodeId) (field : Field) : Field :=
  { field.renamed rename (Field.newParent rename id top) with attributes := view field.attributes }

/-- A branch has a copy of each field at and below a field of a form. -/
def Branch.Mirrors (branch : Branch) (source : Form) (view : Attributes → Attributes)
    (id : NodeId) : Prop :=
  ∃ rename, rename id = branch.root ∧ ∀ {key : NodeId} {field : Field}, source.Under id key →
    source.get? key = some field →
      branch.toForm.get? (rename key) = some (field.mirrored rename view id none)

theorem Branch.Mirrors.strip (mirrors : branch.Mirrors source view id) (names : List String) :
    (branch.strip names).Mirrors source (fun bag => (view bag).removeAll names) id := by
  obtain ⟨rename, root, each⟩ := mirrors
  refine ⟨rename, root, fun under found => ?_⟩
  rw [Branch.get?_strip, each under found]
  rfl

/-- Nothing is taken out of a branch if no names are given. -/
theorem Branch.strip_nil (branch : Branch) : branch.strip [] = branch :=
  Branch.ext_get? rfl fun id => by
    rw [Branch.get?_strip]
    exact Option.map_id'

/-- Copies mirror what they were made from. -/
theorem Form.WellFormed.mirrors_of_copyAll (wellFormed : source.WellFormed)
    (stored : ∀ id ∈ ids, source.contains id) {copies : List Branch}
    (done : FieldMap.copyAll source.fields ids supply = .ok (copies, supply')) :
    List.Forall₂ (fun id copy => Branch.Mirrors copy source (fun bag => bag) id) ids copies := by
  induction ids generalizing supply copies with
  | nil =>
    cases done
    exact .nil
  | cons id ids ih =>
    obtain ⟨here, others⟩ := List.forall_mem_cons.mp stored
    unfold FieldMap.copyAll at done
    obtain ⟨⟨copy, middle⟩, first, done⟩ := Question.bind_eq_ok_iff.mp done
    obtain ⟨⟨later, last⟩, rest, same⟩ := Question.bind_eq_ok_iff.mp done
    cases same
    unfold FieldMap.copy at first
    rw [Form.outline_eq here] at first
    cases first
    refine .cons ?_ (ih others rest)
    obtain ⟨rename, named⟩ := supply.exists_names (wellFormed.nodup_span here)
    refine ⟨rename, ?_, fun under found => wellFormed.get?_planted here named under found⟩
    rw [wellFormed.span_eq here, Supply.names_cons] at named
    exact named.1

/-- A field with more children, which are listed as one block from an index on. -/
def Field.adopting (index : Nat) (made : List NodeId) (field : Field) : Field :=
  { field with children := field.children.take index ++ (made ++ field.children.drop index) }

namespace Form

variable {form after : Form} {place : Position} {branches : List Branch}

/-! ## Lookups beside and inside new branches -/

/-- Fields that were there before stay as they are, but for the new children of one of them. -/
theorem Restorable.get?_restored (restorable : form.Restorable (removalsAt place branches))
    (room : place.index ≤ (form.children place.parent).length) (stored : form.contains key) :
    (form.restored (removalsAt place branches)).get? key =
      (form.get? key).map fun field =>
        if key = place.parent then field.adopting place.index (branches.map Branch.root)
        else field := by
  induction branches with
  | nil =>
    show form.get? key = _
    obtain ⟨field, found⟩ := contains_iff.mp stored
    rw [found, Option.map_some, List.map_nil, Field.adopting, List.nil_append,
      List.take_append_drop, ite_self]
  | cons branch branches ih =>
    obtain ⟨rest, -, able, -⟩ := restorable
    have outside : ¬ branch.toForm.contains key := fun inside =>
      able.apart inside (rest.contains_restored.mpr (.inl stored))
    have grown : (form.restored (removalsAt place (branch :: branches))).get? key =
        if key = place.parent then
          ((form.restored (removalsAt place branches)).get? key).map fun field =>
            { field with children := field.children.insertIdx place.index branch.root }
        else (form.restored (removalsAt place branches)).get? key :=
      get?_attached_of_not_branch outside
    obtain ⟨field, found⟩ := contains_iff.mp stored
    rw [grown, ih rest, found]
    by_cases here : key = place.parent
    · have front : (field.children.take place.index).length = place.index := by
        rw [← here, children_of_get? found] at room
        exact List.length_take_of_le room
      have step := insertIdx_length_append branch.root (field.children.take place.index)
        (branches.map Branch.root ++ field.children.drop place.index)
      rw [front] at step
      simp only [here, if_true, Option.map_some, Field.adopting, step]
      rfl
    · simp only [here, if_false]

/-- A field of a new branch is found as it stands in the branch, except that the topmost one has a
parent now. -/
theorem Restorable.get?_restored_of_branch
    (restorable : form.Restorable (removalsAt place branches)) (listed : branch ∈ branches)
    {field : Field} (found : branch.toForm.get? key = some field) :
    (form.restored (removalsAt place branches)).get? key =
      some (if key = branch.root then { field with parent := some place.parent } else field) := by
  induction branches with
  | nil => cases listed
  | cons first branches ih =>
    have apart := (List.pairwise_cons.mp restorable.apart).1
    obtain ⟨rest, -, able, elsewhere⟩ := restorable
    rcases List.mem_cons.mp listed with rfl | listed
    · exact able.get?_of_branch found
    · have member : (⟨place, branch⟩ : Removal) ∈ removalsAt place branches :=
        List.mem_map_of_mem listed
      have inside := contains_of_get? found
      have outside : ¬ first.toForm.contains key := fun again => apart _ member key again inside
      have lower : key ≠ place.parent := fun same => elsewhere _ member (same ▸ inside)
      exact (get?_attached_of_not_branch outside).trans ((if_neg lower).trans (ih rest listed))

/-! ## Copies in a form -/

/-- Where fields are found under new names, the walk meets them in the same order. -/
theorem WellFormed.descendants_renamed (wellFormed : source.WellFormed)
    (wellFormed' : after.WellFormed) (stored : source.contains id) {change : Field → Field}
    (links : ∀ field, (change field).children = field.children.map rename)
    (each : ∀ {key : NodeId} {field : Field}, source.Under id key → source.get? key = some field →
      after.get? (rename key) = some (change field)) :
    after.descendants (rename id) = (source.descendants id).map change := by
  refine wellFormed.descend (motive := fun low => source.Under id low →
    after.descendants (rename low) = (source.descendants low).map change) stored
    (fun low stored ih under => ?_) .here
  obtain ⟨field, found⟩ := contains_iff.mp stored
  rw [wellFormed.descendants_eq found, wellFormed'.descendants_eq (each under found), links,
    List.flatMap_map, List.map_cons, List.map_flatMap]
  refine congrArg _ (List.flatMap_congr fun child listed => ?_)
  rw [← children_of_get? found] at listed
  exact ih child listed (under.trans (.of_parent (wellFormed.parent?_eq listed)))

/-- What lies at and below a copy is what lies at and below the field that was copied, in the same
order and under new names. -/
def Mirrored (after source : Form) (view : Attributes → Attributes) (parent id copy : NodeId) :
    Prop :=
  ∃ rename, rename id = copy ∧
    after.descendants copy =
      (source.descendants id).map (Field.mirrored rename view id (some parent))

theorem Mirrored.congr {other : Attributes → Attributes} {parent copy : NodeId}
    (mirrored : after.Mirrored source view parent id copy)
    (same : ∀ field ∈ source.descendants id, view field.attributes = other field.attributes) :
    after.Mirrored source other parent id copy := by
  obtain ⟨rename, root, each⟩ := mirrored
  refine ⟨rename, root, each.trans (List.map_congr_left fun field listed => ?_)⟩
  unfold Field.mirrored
  rw [same field listed]

/-- A form with copies of fields of a source, which are the only change. -/
structure WithCopies (form source : Form) (view : Attributes → Attributes) (ids : List NodeId)
    (place : Position) (supply supply' : Supply) (made : List NodeId) (after : Form) : Prop where
  root : after.root = form.root
  kept : ∀ key, form.contains key → after.get? key = (form.get? key).map fun field =>
    if key = place.parent then field.adopting place.index made else field
  mirrored : List.Forall₂ (after.Mirrored source view place.parent) ids made
  stored_iff : ∀ key, after.contains key ↔ form.contains key ∨ key ∈ made.flatMap after.span
  new : ∀ key ∈ made.flatMap after.span,
    ¬ form.contains key ∧ supply.next ≤ key.number ∧ key.number < supply'.next
  distinct : (made.flatMap after.span).Nodup

/-- The copies are one block among the children of their parent. -/
theorem WithCopies.children_parent {made : List NodeId}
    (copies : form.WithCopies source view ids place supply supply' made after)
    (stored : form.contains place.parent) :
    after.children place.parent = (form.children place.parent).take place.index ++
      (made ++ (form.children place.parent).drop place.index) := by
  obtain ⟨field, found⟩ := contains_iff.mp stored
  have kept := copies.kept place.parent stored
  rw [found, Option.map_some, if_pos rfl] at kept
  rw [children_of_get? kept, children_of_get? found]
  rfl

section Restored

variable (restorable : form.Restorable (removalsAt place branches)) (wellFormed : form.WellFormed)
include restorable wellFormed

/-- A branch that mirrors a field does so in the form as well. -/
theorem Restorable.mirrored (origin : source.WellFormed) (stored : source.contains id)
    (listed : branch ∈ branches) (mirrors : branch.Mirrors source view id) :
    (form.restored (removalsAt place branches)).Mirrored source view place.parent id
      branch.root := by
  obtain ⟨rename, root, each⟩ := mirrors
  have grown := restorable.wellFormed_restored wellFormed
  have whole : branch.Whole :=
    restorable.whole (List.mem_map_of_mem (f := Removal.mk place) listed)
  refine ⟨rename, root, ?_⟩
  rw [← root]
  refine origin.descendants_renamed grown stored (fun _ => rfl) fun {key field} under found => ?_
  rw [restorable.get?_restored_of_branch listed (each under found)]
  have own := origin.own_id found
  rcases under.eq_or_beneath with rfl | beneath
  · simp only [Field.mirrored, Field.renamed, Field.newParent, own, root, if_true]
  · have inner := origin.ne_of_beneath beneath
    -- only the topmost field of the branch has no parent there
    have lower : rename key ≠ branch.root := fun same => by
      obtain ⟨parent, above, -⟩ := beneath
      have top := whole.root_top
      rw [← same, parent?_of_get? (each under found), Field.mirrored, Field.renamed,
        Field.newParent, own, if_neg inner, ← parent?_of_get? found, above] at top
      cases top
    simp only [Field.mirrored, Field.renamed, Field.newParent, own, inner, lower, if_false]

/-- Branches that mirror fields become copies of them, in the same order. -/
theorem Restorable.forall₂_mirrored (origin : source.WellFormed)
    (there : ∀ id ∈ ids, source.contains id)
    (mirrors : List.Forall₂ (fun id branch => Branch.Mirrors branch source view id) ids branches) :
    List.Forall₂ ((form.restored (removalsAt place branches)).Mirrored source view place.parent)
      ids (branches.map Branch.root) := by
  obtain ⟨length, each⟩ := List.forall₂_iff_zip.mp mirrors
  refine List.forall₂_map_right_iff.mpr (List.forall₂_iff_zip.mpr ⟨length, fun paired => ?_⟩)
  obtain ⟨idListed, listed⟩ := List.of_mem_zip paired
  exact restorable.mirrored wellFormed origin (there _ idListed) listed (each paired)

theorem Restorable.mem_span_restored (listed : branch ∈ branches) :
    key ∈ (form.restored (removalsAt place branches)).span branch.root ↔
      branch.toForm.contains key := by
  have member : (⟨place, branch⟩ : Removal) ∈ removalsAt place branches :=
    List.mem_map_of_mem listed
  refine (restorable.wellFormed_restored wellFormed).mem_descendants_ids.trans
    ⟨fun ⟨stored, under⟩ => ?_, fun inside => ?_⟩
  · exact (restorable.under_restored_iff wellFormed member stored).mp under
  · have stored := restorable.contains_restored.mpr (.inr ⟨_, member, inside⟩)
    exact ⟨stored, (restorable.under_restored_iff wellFormed member stored).mpr inside⟩

end Restored

/-- **Fresh branches that mirror fields of a source become copies of them.** -/
theorem WellFormed.withCopies (wellFormed : form.WellFormed) (origin : source.WellFormed)
    {kept : Attributes → Prop} (sprouted : Sprouted kept supply.next supply'.next branches)
    (older : ∀ {key : NodeId}, form.contains key → key.number < supply.next)
    (stored : form.contains place.parent)
    (room : place.index ≤ (form.children place.parent).length)
    (there : ∀ id ∈ ids, source.contains id)
    (mirrors : List.Forall₂ (fun id branch => Branch.Mirrors branch source view id) ids branches) :
    form.WithCopies source view ids place supply supply' (branches.map Branch.root)
      (form.restored (removalsAt place branches)) := by
  have restorable := sprouted.restorable older stored room
  have grown := restorable.wellFormed_restored wellFormed
  have span_iff : ∀ {key}, key ∈ (branches.map Branch.root).flatMap
      (form.restored (removalsAt place branches)).span ↔
      ∃ branch ∈ branches, branch.toForm.contains key := by
    intro key
    rw [List.flatMap_map, List.mem_flatMap]
    exact exists_congr fun branch => and_congr_right fun listed =>
      restorable.mem_span_restored wellFormed listed
  refine
    { root := root_restored
      kept := fun key inside => restorable.get?_restored room inside
      mirrored := restorable.forall₂_mirrored wellFormed origin there mirrors
      stored_iff := fun key => ?_
      new := fun key listed => ?_
      distinct := ?_ }
  · rw [restorable.contains_restored, span_iff]
    exact or_congr_right (by simp [removalsAt])
  · obtain ⟨branch, listed, inside⟩ := span_iff.mp listed
    obtain ⟨low, high, above, below, fresh⟩ := sprouted.exists_fresh listed
    obtain ⟨first, last⟩ := fresh.range inside
    exact ⟨fun again => by have := older again; omega, by omega, by omega⟩
  · rw [List.flatMap_map, List.nodup_flatMap]
    refine ⟨fun branch listed => grown.nodup_span ?_, ?_⟩
    · have member := List.mem_map_of_mem (f := Removal.mk place) listed
      exact restorable.contains_restored.mpr
        (.inr ⟨_, member, (restorable.whole member).root_stored⟩)
    · refine sprouted.apart.imp_of_mem fun listed laterListed apart key inside again => ?_
      exact apart key ((restorable.mem_span_restored wellFormed listed).mp inside)
        ((restorable.mem_span_restored wellFormed laterListed).mp again)

/-! ## The law -/

/-- What fields may be imported from: a valid form, or a branch that the library has made. -/
inductive Importable : Form → Prop where
  | form {source : Form} : source.validate = .ok () → Importable source
  | branch {branch : Branch} : branch.Produced → Importable branch.toForm

theorem Importable.wellFormed (importable : source.Importable) : source.WellFormed := by
  cases importable with
  | form valid => exact validate_eq_ok_iff.mp valid
  | branch produced => exact produced.whole

/-- The attributes that copies take over: all of them, or all but those that describe a lock. -/
def takenOver (keepLocks : Bool) (bag : Attributes) : Attributes :=
  if keepLocks then bag else ⟨bag.entries.filter fun entry => entry.1 ∉ AttributeName.lock⟩

theorem removeAll_strippedNames {bag : Attributes} (distinct : bag.Distinct) (keepLocks : Bool) :
    bag.removeAll (strippedNames keepLocks) = takenOver keepLocks bag := by
  cases keepLocks with
  | true => rfl
  | false =>
    have entries : (bag.removeAll AttributeName.lock).entries = _ := distinct.entries_removeAll
    exact congrArg Attributes.mk entries

section Valid

variable (wellFormed : form.WellFormed)
  (older : ∀ {key : NodeId}, form.contains key → key.number < supply.next)
include wellFormed older

/-- Importing puts copies at a place. -/
theorem WellFormed.importFields_withCopies (origin : source.WellFormed)
    (there : ∀ id ∈ ids, source.contains id) (stored : form.contains place.parent)
    (room : place.index ≤ (form.children place.parent).length) :
    ∃ made supply' after,
      importFields source.fields ids place supply form = .ok (⟨place, made⟩, supply') after ∧
      form.WithCopies source (fun bag => bag) ids place supply supply' made after := by
  obtain ⟨copies, supply', copied⟩ :
      ∃ copies supply', FieldMap.copyAll source.fields ids supply = .ok (copies, supply') :=
    FieldMap.exists_copyAll there
  have sprouted : Sprouted (fun _ => True) supply.next supply'.next copies :=
    (FieldMap.sprouted_copyAll (fun _ _ _ => trivial) copied).1
  refine ⟨_, supply', _, ?_, wellFormed.withCopies origin sprouted older stored room there
    (origin.mirrors_of_copyAll there copied)⟩
  unfold importFields
  rw [Step.bind_of_ok (Edit.ask_of_ok (checkIndex_eq_ok stored room)),
    Step.bind_of_ok (Edit.ask_of_ok copied)]
  exact Step.bind_of_ok (attachAll_of_restorable (sprouted.restorable older stored room))

/-- Duplicating puts copies right after the run. -/
theorem WellFormed.duplicate_withCopies {run : Run} (found : form.run ids = .ok run)
    (distinct : ∀ id field, form.get? id = some field → field.attributes.Distinct)
    (keepLocks : Bool) :
    ∃ made supply' after,
      duplicate ids keepLocks supply form = .ok (⟨⟨run.parent, run.stop⟩, made⟩, supply') after ∧
      form.WithCopies form (takenOver keepLocks) run.ids ⟨run.parent, run.stop⟩ supply supply' made
        after := by
  obtain ⟨filled, block, -⟩ := wellFormed.block_of_run found
  have there : ∀ id ∈ run.ids, form.contains id := fun _ => block.contains wellFormed.toLinksFit
  obtain ⟨copies, supply', copied⟩ :
      ∃ copies supply', FieldMap.copyAll form.fields run.ids supply = .ok (copies, supply') :=
    FieldMap.exists_copyAll there
  have sprouted : Sprouted (fun _ => True) supply.next supply'.next copies :=
    (FieldMap.sprouted_copyAll (fun _ _ _ => trivial) copied).1
  have stripped : Sprouted (fun _ => True) supply.next supply'.next
      (copies.map (Branch.strip · (strippedNames keepLocks))) :=
    sprouted.map fun fresh => fresh.strip fun _ _ => trivial
  have stored := block.contains_parent filled
  have room : run.stop ≤ (form.children run.parent).length := block.stop_le
  have restorable : form.Restorable (removalsAt ⟨run.parent, run.stop⟩ _) :=
    stripped.restorable older stored room
  have mirrors := (wellFormed.mirrors_of_copyAll there copied).imp fun _ _ mirrors =>
    mirrors.strip (strippedNames keepLocks)
  have result : form.WithCopies form _ run.ids ⟨run.parent, run.stop⟩ supply supply' _ _ :=
    wellFormed.withCopies wellFormed stripped older stored room there
      (List.forall₂_map_right_iff.mpr mirrors)
  refine ⟨_, supply', _, ?_, { result with
    mirrored := result.mirrored.imp fun id copy mirrored => mirrored.congr fun field listed =>
      removeAll_strippedNames (distinct _ _ (wellFormed.mem_descendants.mp listed).1) keepLocks }⟩
  unfold duplicate
  rw [Step.bind_of_ok (Edit.ask_of_ok found), Step.bind_of_ok (Edit.ask_of_ok copied), List.map_map]
  exact Step.bind_of_ok (attachAll_of_restorable restorable)

end Valid

/-- Duplicating a run with its locks is importing it from the form itself. -/
theorem WellFormed.duplicate_eq_importFields (wellFormed : form.WellFormed) {run : Run}
    (found : form.run ids = .ok run) :
    duplicate ids true supply form =
      importFields form.fields run.ids ⟨run.parent, run.stop⟩ supply form := by
  obtain ⟨filled, block, -⟩ := wellFormed.block_of_run found
  have checked : Edit.ask (fun form => form.checkIndex ⟨run.parent, run.stop⟩) form = .ok () form :=
    Edit.ask_of_ok (checkIndex_eq_ok (block.contains_parent filled) block.stop_le)
  have whole : (fun branch : Branch => branch.strip (strippedNames true)) = id :=
    funext Branch.strip_nil
  unfold duplicate importFields
  rw [Step.bind_of_ok (Edit.ask_of_ok found), Step.bind_of_ok checked, whole]
  simp only [List.map_id]
  rfl

/-- **Copies are exact and new.**  Duplicating a run puts one copy of each of its fields right after
it, and importing puts one copy of each id that is named, in the order in which they are named, at
the place that is asked for; nothing else changes.  A copy has the shape and the attributes of what
it was copied from, except that a duplicate is not locked unless locks are to be kept.  With its
locks, a run is duplicated as if it was imported from the form itself. -/
theorem copying_law (valid : form.validate = .ok ())
    (distinct : ∀ id field, form.get? id = some field → field.attributes.Distinct)
    (older : ∀ id, form.contains id → id.number < supply.next) :
    (∀ ids run keepLocks, form.run ids = .ok run → ∃ made supply' after,
      duplicate ids keepLocks supply form = .ok (⟨⟨run.parent, run.stop⟩, made⟩, supply') after ∧
      form.WithCopies form (takenOver keepLocks) run.ids ⟨run.parent, run.stop⟩ supply supply' made
        after) ∧
    (∀ source ids place, Importable source → (∀ id ∈ ids, source.contains id) →
      form.contains place.parent → place.index ≤ (form.children place.parent).length →
      ∃ made supply' after,
        importFields source.fields ids place supply form = .ok (⟨place, made⟩, supply') after ∧
        form.WithCopies source (fun bag => bag) ids place supply supply' made after) ∧
    ∀ ids run, form.run ids = .ok run → duplicate ids true supply form =
      importFields form.fields run.ids ⟨run.parent, run.stop⟩ supply form := by
  have wellFormed := validate_eq_ok_iff.mp valid
  have older' : ∀ {key : NodeId}, form.contains key → key.number < supply.next := older _
  exact ⟨fun ids run keepLocks found =>
      wellFormed.duplicate_withCopies older' found distinct keepLocks,
    fun source ids place importable there stored room =>
      wellFormed.importFields_withCopies older' importable.wellFormed there stored room,
    fun ids run => wellFormed.duplicate_eq_importFields⟩

/-- A field above a locked one is duplicated without the lock, and it is imported twice, with the
locked one in between. -/
theorem copying_law_locked :
    let locked : Attributes := ⟨[(AttributeName.lockLevel, "lockedTemplate"), ("value", "1")]⟩
    let form := (Branch.ofOutline ⟨10⟩ (.node .empty
      [.node .empty [.node locked []], .node .empty []])).toForm
    (∃ copy supply' after,
      duplicate [⟨11⟩] false ⟨20⟩ form = .ok (⟨⟨⟨10⟩, 1⟩, [copy]⟩, supply') after ∧
      after.children ⟨10⟩ = [⟨11⟩, copy, ⟨13⟩] ∧
      (after.descendants copy).map Field.attributes = [.empty, ⟨[("value", "1")]⟩]) ∧
    ∃ first second third supply' after,
      importFields form.fields [⟨11⟩, ⟨12⟩, ⟨11⟩] ⟨⟨12⟩, 0⟩ ⟨20⟩ form =
        .ok (⟨⟨⟨12⟩, 0⟩, [first, second, third]⟩, supply') after ∧
      after.children ⟨12⟩ = [first, second, third] ∧
      (after.descendants second).map Field.attributes = [locked] := by
  intro locked form
  have valid : form.validate = .ok () := by decide +kernel
  have wellFormed := validate_eq_ok_iff.mp valid
  have stored : ∀ {id field}, form.get? id = some field → field ∈ form.preorder := by
    intro id field found
    obtain rfl := wellFormed.own_id found
    exact wellFormed.mem_descendants.mpr ⟨found, wellFormed.reached (contains_of_get? found)⟩
  have bags : ∀ field ∈ form.preorder, (field.attributes.entries.map Prod.fst).Nodup := by
    decide +kernel
  have numbers : ∀ field ∈ form.preorder, field.id.number < 20 := by decide +kernel
  have older : ∀ id, form.contains id → id.number < (⟨20⟩ : Supply).next := by
    intro id inside
    obtain ⟨field, found⟩ := contains_iff.mp inside
    exact wellFormed.own_id found ▸ numbers field (stored found)
  have block : form.Block ⟨10⟩ 0 [⟨11⟩] := ⟨[], [⟨13⟩], by decide +kernel, rfl⟩
  have found := wellFormed.run_of_block block (by decide)
  obtain ⟨duplicates, imports, -⟩ :=
    copying_law valid (fun id field found => bags field (stored found)) older
  constructor
  · obtain ⟨made, supply', after, done, copies⟩ := duplicates [⟨11⟩] _ false found
    obtain ⟨copy, others, ⟨rename, -, mirrored⟩, none, rfl⟩ :=
      List.forall₂_cons_left_iff.mp copies.mirrored
    cases none
    have children := copies.children_parent (by decide +kernel)
    rw [block.children_eq] at children
    refine ⟨copy, supply', after, done, children, ?_⟩
    rw [mirrored, List.map_map]
    show (form.descendants ⟨11⟩).map (fun field => takenOver false field.attributes) = _
    decide +kernel
  · obtain ⟨made, supply', after, done, copies⟩ :=
      imports form [⟨11⟩, ⟨12⟩, ⟨11⟩] ⟨⟨12⟩, 0⟩ (.form valid) (by decide +kernel)
        (by decide +kernel) (Nat.zero_le _)
    obtain ⟨first, others, -, rest, rfl⟩ := List.forall₂_cons_left_iff.mp copies.mirrored
    obtain ⟨second, others, ⟨rename, -, mirrored⟩, last, rfl⟩ := List.forall₂_cons_left_iff.mp rest
    obtain ⟨third, others, -, none, rfl⟩ := List.forall₂_cons_left_iff.mp last
    cases none
    have alone : form.children ⟨12⟩ = [] := by decide +kernel
    have children := copies.children_parent (by decide +kernel)
    rw [alone] at children
    refine ⟨first, second, third, supply', after, done, children, ?_⟩
    rw [mirrored, List.map_map]
    show (form.descendants ⟨12⟩).map Field.attributes = _
    decide +kernel

end Form

end FormEditor
