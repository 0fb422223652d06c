import FormEditor.Form.Branch
import FormEditor.Proofs.Form.Stacks
import Mathlib.Data.List.Nodup

/-!
# Copies

An outline that is planted grows into fields with consecutive ids, numbered in document order,
so that a parent has a smaller number than its children (`Planted`).  Such fields make up a whole
branch.  Copies that are planted one after the other have no field in common, with each other or
with a form whose ids were given out before, and may therefore be attached to it
(`Sprouted.restorable`).
-/

set_option autoImplicit false

namespace FormEditor

variable {kept : Attributes → Prop} {above : Option NodeId} {start middle stop : Nat}
  {roots : List NodeId} {planted further : List Field}

/-! ## Planted fields -/

/-- Fields that were planted with ids from `start` up to `stop`: those in `roots` have the parent
that is given, all others have a parent among the fields. -/
structure Planted (kept : Attributes → Prop) (above : Option NodeId) (start stop : Nat)
    (roots : List NodeId) (planted : List Field) : Prop where
  ordered : start ≤ stop
  numbers : planted.map (fun field => field.id.number) = List.range' start (stop - start)
  up : ∀ field ∈ planted, field.parent = above ∧ field.id ∈ roots ∨
    ∃ upper ∈ planted, field.parent = some upper.id ∧ field.id ∈ upper.children
  down : ∀ field ∈ planted, ∀ child ∈ field.children,
    ∃ lower ∈ planted, lower.id = child ∧ lower.parent = some field.id
  top : ∀ root ∈ roots, ∃ field ∈ planted, field.id = root ∧ field.parent = above
  rooted : roots.Pairwise fun left right => left.number < right.number
  sorted : ∀ field ∈ planted,
    field.children.Pairwise fun left right => left.number < right.number
  rising : ∀ field ∈ planted, ∀ child ∈ field.children, field.id.number < child.number
  bags : ∀ field ∈ planted, kept field.attributes ∧ field.highlighted = false

namespace Planted

theorem number_mem (fields : Planted kept above start stop roots planted) {field : Field}
    (listed : field ∈ planted) : start ≤ field.id.number ∧ field.id.number < stop := by
  have member : field.id.number ∈ planted.map fun field => field.id.number :=
    List.mem_map_of_mem (f := fun field : Field => field.id.number) listed
  rw [fields.numbers, List.mem_range'_1] at member
  have ordered := fields.ordered
  omega

theorem root_mem (fields : Planted kept above start stop roots planted) {root : NodeId}
    (listed : root ∈ roots) : start ≤ root.number ∧ root.number < stop := by
  obtain ⟨field, member, rfl, -⟩ := fields.top root listed
  exact fields.number_mem member

theorem nil : Planted kept above start start [] [] where
  ordered := Nat.le_refl start
  numbers := by simp
  up := by simp
  down := by simp
  top := by simp
  rooted := .nil
  sorted := by simp
  rising := by simp
  bags := by simp

theorem append {roots' : List NodeId} (first : Planted kept above start middle roots planted)
    (rest : Planted kept above middle stop roots' further) :
    Planted kept above start stop (roots ++ roots') (planted ++ further) where
  ordered := Nat.le_trans first.ordered rest.ordered
  numbers := by
    have early := first.ordered
    have late := rest.ordered
    have reach : middle = start + (middle - start) := by omega
    have total : stop - start = middle - start + (stop - middle) := by omega
    rw [List.map_append, first.numbers, rest.numbers, total, ← List.range'_append_1, ← reach]
  up := by
    intro field listed
    rcases List.mem_append.mp listed with listed | listed
    · rcases first.up field listed with ⟨parent, root⟩ | ⟨upper, member, parent, child⟩
      · exact .inl ⟨parent, List.mem_append_left _ root⟩
      · exact .inr ⟨upper, List.mem_append_left _ member, parent, child⟩
    · rcases rest.up field listed with ⟨parent, root⟩ | ⟨upper, member, parent, child⟩
      · exact .inl ⟨parent, List.mem_append_right _ root⟩
      · exact .inr ⟨upper, List.mem_append_right _ member, parent, child⟩
  down := by
    intro field listed child member
    rcases List.mem_append.mp listed with listed | listed
    · obtain ⟨lower, found, same⟩ := first.down field listed child member
      exact ⟨lower, List.mem_append_left _ found, same⟩
    · obtain ⟨lower, found, same⟩ := rest.down field listed child member
      exact ⟨lower, List.mem_append_right _ found, same⟩
  top := by
    intro root listed
    rcases List.mem_append.mp listed with listed | listed
    · obtain ⟨field, found, same⟩ := first.top root listed
      exact ⟨field, List.mem_append_left _ found, same⟩
    · obtain ⟨field, found, same⟩ := rest.top root listed
      exact ⟨field, List.mem_append_right _ found, same⟩
  rooted := by
    refine List.pairwise_append.mpr ⟨first.rooted, rest.rooted, ?_⟩
    intro left inLeft right inRight
    exact Nat.lt_of_lt_of_le (first.root_mem inLeft).2 (rest.root_mem inRight).1
  sorted := by
    intro field listed
    exact (List.mem_append.mp listed).elim (first.sorted field) (rest.sorted field)
  rising := by
    intro field listed
    exact (List.mem_append.mp listed).elim (first.rising field) (rest.rising field)
  bags := by
    intro field listed
    exact (List.mem_append.mp listed).elim (first.bags field) (rest.bags field)

/-- A field over planted fields. -/
theorem node {attributes : Attributes} (keeps : kept attributes)
    (fields : Planted kept (some ⟨start⟩) (start + 1) stop roots planted) :
    Planted kept above start stop [⟨start⟩]
      ({ Field.fresh ⟨start⟩ attributes with parent := above, children := roots } :: planted) where
  ordered := Nat.le_of_succ_le fields.ordered
  numbers := by
    have ordered := fields.ordered
    have count : stop - start = (stop - (start + 1)) + 1 := by omega
    rw [List.map_cons, fields.numbers, count, List.range'_succ]
    rfl
  up := by
    intro field listed
    rcases List.mem_cons.mp listed with rfl | listed
    · exact .inl ⟨rfl, List.mem_cons_self⟩
    · rcases fields.up field listed with ⟨parent, root⟩ | ⟨upper, member, rest⟩
      · exact .inr ⟨_, List.mem_cons_self, parent, root⟩
      · exact .inr ⟨upper, List.mem_cons_of_mem _ member, rest⟩
  down := by
    intro field listed child member
    rcases List.mem_cons.mp listed with rfl | listed
    · obtain ⟨lower, found, same, parent⟩ := fields.top child member
      exact ⟨lower, List.mem_cons_of_mem _ found, same, parent⟩
    · obtain ⟨lower, found, rest⟩ := fields.down field listed child member
      exact ⟨lower, List.mem_cons_of_mem _ found, rest⟩
  top := by
    intro root listed
    rw [List.mem_singleton] at listed
    exact ⟨_, List.mem_cons_self, listed.symm, rfl⟩
  rooted := List.pairwise_singleton _ _
  sorted := List.forall_mem_cons.mpr ⟨fields.rooted, fields.sorted⟩
  rising := List.forall_mem_cons.mpr
    ⟨fun _ listed => (fields.root_mem listed).1, fields.rising⟩
  bags := List.forall_mem_cons.mpr ⟨⟨keeps, rfl⟩, fields.bags⟩

end Planted

/-- Every bag of an outline has a property. -/
inductive Outline.Each (kept : Attributes → Prop) : Outline → Prop where
  | node {attributes : Attributes} {children : List Outline} :
      kept attributes → (∀ child ∈ children, Outline.Each kept child) →
        Outline.Each kept (.node attributes children)

mutual
/-- A planted outline has its root and all that lies below it. -/
theorem Outline.planted_plant : ∀ (above : Option NodeId) (supply : Supply) (outline : Outline),
    outline.Each kept →
      Planted kept above supply.next (supply.next + outline.size) [supply.id]
        (outline.plant above supply)
  | above, supply, .node attributes children, .node keeps each => by
    have below := Outline.planted_plantAll supply.id (supply.after 1) children each
    have size : supply.next + (Outline.node attributes children).size =
        (supply.after 1).next + Outline.totalSize children := by
      simp only [Outline.size, Supply.after]
      omega
    rw [size]
    exact below.node keeps

/-- Planted outlines have their roots and all that lies below them. -/
theorem Outline.planted_plantAll : ∀ (parent : NodeId) (supply : Supply) (outlines : List Outline),
    (∀ outline ∈ outlines, outline.Each kept) →
      Planted kept (some parent) supply.next (supply.next + Outline.totalSize outlines)
        (Outline.rootIds supply outlines) (Outline.plantAll parent supply outlines)
  | _, supply, [], _ => Planted.nil
  | parent, supply, outline :: outlines, each => by
    have first := Outline.planted_plant (some parent) supply outline (each _ List.mem_cons_self)
    have rest := Outline.planted_plantAll parent (supply.after outline.size) outlines
      fun other listed => each other (List.mem_cons_of_mem _ listed)
    have size : supply.next + Outline.totalSize (outline :: outlines) =
        (supply.after outline.size).next + Outline.totalSize outlines := by
      simp only [Outline.totalSize, Supply.after]
      omega
    rw [size]
    exact first.append rest
end

/-! ## Stored fields -/

/-- Among fields with distinct ids, each is found under its own id. -/
theorem FieldMap.getElem?_ofFields {fields : List Field} (distinct : (fields.map Field.id).Nodup)
    {id : NodeId} :
    (FieldMap.ofFields fields)[id]? = fields.find? fun field => field.id = id := by
  have keys : ((fields.map fun field => (field.id, field)).map Prod.fst).Nodup := by
    rw [List.map_map]
    exact distinct
  have found : ((fields.map fun field => (field.id, field)).foldl
      (fun stored entry => stored.insert entry.1 entry.2) (∅ : FieldMap))[id]? = _ :=
    FieldMap.getElem?_foldl_insert keys
  rw [List.foldl_map, List.find?_map, Option.map_map, Std.ExtTreeMap.getElem?_empty,
    Option.or_none] at found
  exact found.trans Option.map_id'

namespace Planted

theorem nodup_ids (fields : Planted kept above start stop roots planted) :
    (planted.map Field.id).Nodup := by
  have numbers : ((planted.map Field.id).map NodeId.number).Nodup := by
    rw [List.map_map]
    show (planted.map fun field => field.id.number).Nodup
    rw [fields.numbers]
    exact List.nodup_range'
  exact List.Nodup.of_map NodeId.number numbers

theorem getElem?_eq_some_iff (fields : Planted kept above start stop roots planted)
    {id : NodeId} {field : Field} :
    (FieldMap.ofFields planted)[id]? = some field ↔ field ∈ planted ∧ field.id = id := by
  rw [FieldMap.getElem?_ofFields fields.nodup_ids]
  constructor
  · intro found
    have same := List.find?_some found
    exact ⟨List.mem_of_find?_eq_some found, of_decide_eq_true same⟩
  · rintro ⟨listed, rfl⟩
    cases found : planted.find? fun other => other.id = field.id with
    | none => exact absurd (decide_eq_true rfl) (List.find?_eq_none.mp found field listed)
    | some other =>
      have same := List.find?_some found
      have same : other.id = field.id := of_decide_eq_true same
      rw [List.inj_on_of_nodup_map fields.nodup_ids (List.mem_of_find?_eq_some found) listed same]

section Rooted

variable (fields : Planted kept none start stop [⟨start⟩] planted) {id parent child : NodeId}
include fields

theorem get?_rooted {field : Field} :
    (Form.mk ⟨start⟩ (FieldMap.ofFields planted)).get? id = some field ↔
      field ∈ planted ∧ field.id = id :=
  fields.getElem?_eq_some_iff

theorem listed_iff_rooted :
    child ∈ (Form.mk ⟨start⟩ (FieldMap.ofFields planted)).children parent ↔
      (Form.mk ⟨start⟩ (FieldMap.ofFields planted)).parent? child = some parent := by
  constructor
  · intro listed
    obtain ⟨field, found⟩ := Form.contains_iff.mp (Form.contains_of_mem_children listed)
    rw [Form.children_of_get? found] at listed
    obtain ⟨member, own⟩ := fields.get?_rooted.mp found
    obtain ⟨lower, lowerListed, rfl, above⟩ := fields.down field member child listed
    exact (Form.parent?_of_get? (fields.get?_rooted.mpr ⟨lowerListed, rfl⟩)).trans (own ▸ above)
  · intro above
    obtain ⟨field, found⟩ := Form.contains_iff.mp (Form.contains_of_parent? above)
    rw [Form.parent?_of_get? found] at above
    obtain ⟨member, rfl⟩ := fields.get?_rooted.mp found
    rcases fields.up field member with ⟨none, -⟩ | ⟨upper, upperListed, parent', listed⟩
    · rw [above] at none
      cases none
    · obtain rfl : parent = upper.id := Option.some.inj (above.symm.trans parent')
      rw [Form.children_of_get? (fields.get?_rooted.mpr ⟨upperListed, rfl⟩)]
      exact listed

/-- Parents have smaller numbers, so that the way up ends at the root. -/
theorem reached_rooted (here : (Form.mk ⟨start⟩ (FieldMap.ofFields planted)).contains id) :
    (Form.mk ⟨start⟩ (FieldMap.ofFields planted)).Under ⟨start⟩ id := by
  induction number : id.number using Nat.strongRecOn generalizing id with
  | ind number ih =>
    obtain ⟨field, found⟩ := Form.contains_iff.mp here
    obtain ⟨member, own⟩ := fields.get?_rooted.mp found
    rcases fields.up field member with ⟨-, root⟩ | ⟨upper, upperListed, above, listed⟩
    · rw [List.mem_singleton, own] at root
      rw [root]
      exact .here
    · have lower := fields.rising upper upperListed field.id listed
      rw [own, number] at lower
      have stored := Form.contains_of_get? (fields.get?_rooted.mpr ⟨upperListed, rfl⟩)
      exact .step ((Form.parent?_of_get? found).trans above) (ih _ lower stored rfl)

/-- Planted fields under one root are a whole branch. -/
theorem whole : (Branch.mk ⟨start⟩ (FieldMap.ofFields planted)).Whole := by
  obtain ⟨top, topListed, topId, topParent⟩ := fields.top ⟨start⟩ List.mem_cons_self
  have topStored := fields.get?_rooted.mpr ⟨topListed, topId⟩
  refine
    { root_stored := Form.contains_of_get? topStored
      root_top := (Form.parent?_of_get? topStored).trans topParent
      own_id := fun found => (fields.get?_rooted.mp found).2
      listed_iff := fields.listed_iff_rooted
      nodup := fun parent => ?_
      reached := fields.reached_rooted }
  show ((Form.mk ⟨start⟩ (FieldMap.ofFields planted)).children parent).Nodup
  by_cases here : (Form.mk ⟨start⟩ (FieldMap.ofFields planted)).contains parent
  · obtain ⟨field, found⟩ := Form.contains_iff.mp here
    have sorted := fields.sorted field (fields.get?_rooted.mp found).1
    rw [Form.children_of_get? found]
    exact sorted.imp fun below same => Nat.ne_of_lt below (congrArg NodeId.number same)
  · rw [Form.children_of_not_contains here]
    exact List.nodup_nil

end Rooted

end Planted

/-! ## Fresh branches -/

/-- A whole branch whose ids are numbered from `start` up to `stop`, without highlights. -/
structure Branch.Fresh (kept : Attributes → Prop) (start stop : Nat) (branch : Branch) : Prop where
  whole : branch.Whole
  ordered : start ≤ stop
  range : ∀ {id : NodeId}, branch.toForm.contains id → start ≤ id.number ∧ id.number < stop
  bags : ∀ {id : NodeId} {field : Field}, branch.toForm.get? id = some field →
    kept field.attributes ∧ field.highlighted = false

/-- A planted outline is a fresh branch. -/
theorem Outline.fresh {supply : Supply} {outline : Outline} (each : outline.Each kept) :
    (Branch.ofOutline supply outline).Fresh kept supply.next (supply.next + outline.size) := by
  have fields := Outline.planted_plant none supply outline each
  refine ⟨fields.whole, fields.ordered, fun stored => ?_, fun found => ?_⟩
  · obtain ⟨field, found⟩ := Form.contains_iff.mp stored
    obtain ⟨member, rfl⟩ := fields.getElem?_eq_some_iff.mp found
    exact fields.number_mem member
  · exact fields.bags _ (fields.getElem?_eq_some_iff.mp found).1

theorem Branch.get?_strip {branch : Branch} {names : List String} {id : NodeId} :
    (branch.strip names).toForm.get? id = (branch.toForm.get? id).map fun field =>
      { field with attributes := field.attributes.removeAll names } := by
  show (Std.ExtTreeMap.map _ branch.fields)[id]? = _
  rw [Std.ExtTreeMap.getElem?_map]
  rfl

/-- Taking attributes out of a branch leaves its links alone. -/
theorem Branch.alike_strip (branch : Branch) (names : List String) :
    branch.toForm.Alike (fun _ => ()) (branch.strip names).toForm := by
  refine ⟨rfl, ?_⟩
  intro id
  rw [Branch.get?_strip, Option.map_map]
  rfl

theorem Branch.Fresh.strip {branch : Branch} {names : List String}
    (fresh : branch.Fresh kept start stop)
    (keeps : ∀ bag, kept bag → kept (Attributes.removeAll bag names)) :
    (branch.strip names).Fresh kept start stop := by
  have alike := branch.alike_strip names
  refine ⟨alike.wellFormed fresh.whole, fresh.ordered, fun stored => ?_, fun found => ?_⟩
  · rw [← alike.contains_eq] at stored
    exact fresh.range stored
  · rw [Branch.get?_strip] at found
    obtain ⟨field, stored, rfl⟩ := Option.map_eq_some_iff.mp found
    exact ⟨keeps _ (fresh.bags stored).1, (fresh.bags stored).2⟩

/-- Fresh branches with ids that follow on each other. -/
inductive Sprouted (kept : Attributes → Prop) : Nat → Nat → List Branch → Prop where
  | nil {start : Nat} : Sprouted kept start start []
  | cons {start middle stop : Nat} {branch : Branch} {branches : List Branch} :
      branch.Fresh kept start middle → Sprouted kept middle stop branches →
        Sprouted kept start stop (branch :: branches)

namespace Sprouted

variable {branches : List Branch}

theorem ordered (sprouted : Sprouted kept start stop branches) : start ≤ stop := by
  induction sprouted with
  | nil => exact Nat.le_refl _
  | cons fresh _ ih => exact Nat.le_trans fresh.ordered ih

theorem exists_fresh (sprouted : Sprouted kept start stop branches) {branch : Branch}
    (listed : branch ∈ branches) :
    ∃ low high, start ≤ low ∧ high ≤ stop ∧ branch.Fresh kept low high := by
  induction sprouted with
  | nil => cases listed
  | cons fresh rest ih =>
    rcases List.mem_cons.mp listed with rfl | listed
    · exact ⟨_, _, Nat.le_refl _, rest.ordered, fresh⟩
    · obtain ⟨low, high, above, below, found⟩ := ih listed
      exact ⟨low, high, Nat.le_trans fresh.ordered above, below, found⟩

theorem map {change : Branch → Branch} (sprouted : Sprouted kept start stop branches)
    (keeps : ∀ {low high : Nat} {branch : Branch}, branch.Fresh kept low high →
      (change branch).Fresh kept low high) :
    Sprouted kept start stop (branches.map change) := by
  induction sprouted with
  | nil => exact .nil
  | cons fresh _ ih => exact .cons (keeps fresh) ih

/-- Fresh branches have no field in common. -/
theorem apart (sprouted : Sprouted kept start stop branches) :
    branches.Pairwise fun branch later => ∀ id : NodeId,
      branch.toForm.contains id → ¬ later.toForm.contains id := by
  induction sprouted with
  | nil => exact .nil
  | cons fresh rest ih =>
    refine .cons (fun later listed id inside again => ?_) ih
    obtain ⟨low, high, above, -, found⟩ := rest.exists_fresh listed
    have early := fresh.range inside
    have late := found.range again
    omega

/-- Fresh branches may be attached side by side to a form whose ids were given out before. -/
theorem restorable {form : Form} {place : Position} (sprouted : Sprouted kept start stop branches)
    (older : ∀ {id : NodeId}, form.contains id → id.number < start)
    (stored : form.contains place.parent)
    (room : place.index ≤ (form.children place.parent).length) :
    form.Restorable (Form.removalsAt place branches) := by
  refine Form.restorable_of_apart stored room (fun branch listed => ?_)
    (fun branch listed id inside again => ?_) sprouted.apart
  · obtain ⟨low, high, -, -, fresh⟩ := sprouted.exists_fresh listed
    exact fresh.whole
  · obtain ⟨low, high, above, -, fresh⟩ := sprouted.exists_fresh listed
    have late := fresh.range inside
    have early := older again
    omega

end Sprouted

/-! ## Copies of what is stored -/

/-- The bags of an outline are stored bags. -/
theorem FieldMap.each_outline {fields : FieldMap} {id : NodeId} {outline : Outline}
    (keeps : ∀ (id : NodeId) (field : Field), fields[id]? = some field → kept field.attributes)
    (found : FieldMap.outline fields id = .ok outline) : outline.Each kept := by
  have each : ∀ {depth id outline}, FieldMap.outlineFrom fields depth id = some outline →
      outline.Each kept := by
    intro depth
    induction depth with
    | zero =>
      intro id outline found
      cases found
    | succ depth ih =>
      intro id outline found
      unfold FieldMap.outlineFrom at found
      obtain ⟨field, stored, rfl⟩ := Option.map_eq_some_iff.mp found
      refine .node (keeps id field stored) ?_
      intro child listed
      obtain ⟨childId, -, grown⟩ := List.mem_filterMap.mp listed
      exact ih grown
  unfold FieldMap.outline at found
  split at found
  · rename_i grown
    cases found
    exact each grown
  · cases found

/-- Every field that is stored has an outline. -/
theorem FieldMap.exists_outline {fields : FieldMap} {id : NodeId}
    (stored : (fields[id]?).isSome) : ∃ outline, FieldMap.outline fields id = .ok outline := by
  obtain ⟨field, found⟩ := Option.isSome_iff_exists.mp stored
  have filled : fields.size ≠ 0 := by
    rw [← Std.ExtTreeMap.length_keys]
    have listed : id ∈ fields.keys := by
      rw [Std.ExtTreeMap.mem_keys, Std.ExtTreeMap.mem_iff_isSome_getElem?]
      exact stored
    exact Nat.ne_of_gt (List.length_pos_of_mem listed)
  obtain ⟨depth, size⟩ := Nat.exists_eq_succ_of_ne_zero filled
  unfold FieldMap.outline
  rw [size]
  unfold FieldMap.outlineFrom
  rw [found]
  exact ⟨_, rfl⟩

/-- Copies that are made one after the other are fresh. -/
theorem FieldMap.sprouted_copyAll {fields : FieldMap} {ids : List NodeId} {supply supply' : Supply}
    {branches : List Branch}
    (keeps : ∀ (id : NodeId) (field : Field), fields[id]? = some field → kept field.attributes)
    (done : FieldMap.copyAll fields ids supply = .ok (branches, supply')) :
    Sprouted kept supply.next supply'.next branches ∧ branches.length = ids.length := by
  induction ids generalizing supply branches with
  | nil =>
    cases done
    exact ⟨.nil, rfl⟩
  | cons id ids ih =>
    unfold FieldMap.copyAll at done
    obtain ⟨⟨branch, middle⟩, first, done⟩ := Question.bind_eq_ok_iff.mp done
    obtain ⟨⟨later, last⟩, rest, same⟩ := Question.bind_eq_ok_iff.mp done
    cases same
    unfold FieldMap.copy at first
    cases found : FieldMap.outline fields id with
    | error fault =>
      rw [found] at first
      cases first
    | ok outline =>
      rw [found] at first
      cases first
      obtain ⟨sprouted, length⟩ := ih rest
      refine ⟨.cons (Outline.fresh (FieldMap.each_outline keeps found)) sprouted, ?_⟩
      rw [List.length_cons, List.length_cons, length]

/-- Fields that are stored can be copied. -/
theorem FieldMap.exists_copyAll {fields : FieldMap} {ids : List NodeId}
    (stored : ∀ id ∈ ids, (fields[id]?).isSome) {supply : Supply} :
    ∃ branches supply', FieldMap.copyAll fields ids supply = .ok (branches, supply') := by
  induction ids generalizing supply with
  | nil => exact ⟨[], supply, rfl⟩
  | cons id ids ih =>
    obtain ⟨here, rest⟩ := List.forall_mem_cons.mp stored
    obtain ⟨outline, found⟩ := FieldMap.exists_outline here
    have copied : FieldMap.copy fields id supply =
        .ok (Branch.ofOutline supply outline, supply.after outline.size) := by
      unfold FieldMap.copy
      rw [found]
      rfl
    obtain ⟨branches, supply', done⟩ : ∃ branches supply', FieldMap.copyAll fields ids
        (supply.after outline.size) = .ok (branches, supply') := ih rest
    refine ⟨Branch.ofOutline supply outline :: branches, supply', ?_⟩
    unfold FieldMap.copyAll
    rw [copied, Question.ok_bind]
    dsimp only
    rw [done]
    rfl

/-- A new field is a fresh branch. -/
theorem Branch.fresh_single {supply : Supply} {attributes : Attributes} (keeps : kept attributes) :
    (Branch.single (Field.fresh supply.id attributes)).Fresh kept supply.next
      (supply.next + 1) := by
  have planted : Branch.single (Field.fresh supply.id attributes) =
      Branch.ofOutline supply (.node attributes []) := by
    unfold Branch.single Branch.ofOutline
    simp only [Outline.plant, Outline.plantAll, Outline.rootIds, FieldMap.ofFields]
    rfl
  rw [planted]
  have size : (Outline.node attributes []).size = 1 := by
    simp only [Outline.size, Outline.totalSize]
  rw [← size]
  exact Outline.fresh (.node keeps (by simp))

end FormEditor
