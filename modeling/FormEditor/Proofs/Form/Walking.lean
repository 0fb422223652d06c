import FormEditor.Proofs.Form.DocumentOrder

/-!
# Walks up and down

A walk is made step by step: `FieldMap.nextBelow` takes the next field of a walk downwards from a
stack of ids, and `Form.nextAbove` the next id of a walk upwards.  Neither of them counts its
steps, and with links that lead in circles a walk may go on for ever.  `Yields` says that a walk
comes to an end, and what it has met by then.

In a valid form all walks come to an end.  Down from a field they meet what lies at and below it in
pre-order (`FieldMap.Preorder`), and up from a field they meet its ancestors, the root last.

Main statement: in a valid form both walks end, and they agree on which field lies above which
(`walks_agree`).
-/

set_option autoImplicit false

namespace FormEditor

/-! ## Step by step -/

/-- `Yields next state values` says that asking for the next value again and again, from a state
on, gives these values and then comes to an end. -/
inductive Yields {σ α : Type} (next : σ → Option (α × σ)) : σ → List α → Prop where
  | done {state : σ} : next state = none → Yields next state []
  | step {state rest : σ} {value : α} {values : List α} :
      next state = some (value, rest) → Yields next rest values →
        Yields next state (value :: values)

/-- What is given does not depend on anything but the state. -/
theorem Yields.unique {σ α : Type} {next : σ → Option (α × σ)} {state : σ}
    {values values' : List α} (yields : Yields next state values)
    (yields' : Yields next state values') : values = values' := by
  induction yields generalizing values' with
  | done stops =>
    cases yields' with
    | done => rfl
    | step goesOn _ => cases stops.symm.trans goesOn
  | step goesOn _ ih =>
    cases yields' with
    | done stops => cases stops.symm.trans goesOn
    | step goesOn' rest =>
      cases goesOn.symm.trans goesOn'
      rw [ih rest]

/-- The next field of a walk downwards that has the ids of a stack before it, and the stack after
that.  It passes over ids that are not stored, and goes on with the children of the field. -/
def FieldMap.nextBelow (fields : FieldMap) : List NodeId → Option (Field × List NodeId)
  | [] => none
  | id :: stack =>
    match fields[id]? with
    | none => nextBelow fields stack
    | some field => some (field, field.children ++ stack)

/-- The next id of a walk upwards, and where the walk goes on. -/
def Form.nextAbove (form : Form) : Option NodeId → Option (NodeId × Option NodeId)
  | none => none
  | some id => some (id, form.parent? id)

namespace FieldMap

/-- `Preorder fields ids met` says that `met` lists, for one id after the other, the field itself
and then what lies at and below its children. -/
inductive Preorder (fields : FieldMap) : List NodeId → List Field → Prop where
  | nil : Preorder fields [] []
  | cons {id : NodeId} {ids : List NodeId} {field : Field} {below beside : List Field} :
      fields[id]? = some field → Preorder fields field.children below →
        Preorder fields ids beside → Preorder fields (id :: ids) (field :: (below ++ beside))

variable {fields : FieldMap} {front back ids : List NodeId} {met met' first last : List Field}

/-- A walk with a stack is made step by step. -/
theorem Walk.yields (walk : fields.Walk front met) : Yields fields.nextBelow front met := by
  induction walk with
  | done => exact .done rfl
  | @skip id stack met missing _ ih =>
    have passed : fields.nextBelow (id :: stack) = fields.nextBelow stack := by
      simp only [nextBelow, missing]
    cases ih with
    | done stops => exact .done (passed.trans stops)
    | step goesOn rest => exact .step (passed.trans goesOn) rest
  | visit stored _ ih => exact .step (by simp only [nextBelow, stored]) ih

theorem Preorder.unique (preorder : fields.Preorder ids met)
    (preorder' : fields.Preorder ids met') : met = met' := by
  induction preorder generalizing met' with
  | nil =>
    cases preorder'
    rfl
  | cons stored _ _ ihBelow ihBeside =>
    cases preorder' with
    | cons stored' below beside =>
      cases stored.symm.trans stored'
      rw [ihBelow below, ihBeside beside]

theorem Preorder.append (upper : fields.Preorder front first) (lower : fields.Preorder back last) :
    fields.Preorder (front ++ back) (first ++ last) := by
  induction upper with
  | nil => exact lower
  | cons stored below _ _ ihBeside =>
    rw [List.cons_append, List.cons_append, List.append_assoc]
    exact .cons stored below ihBeside

theorem Preorder.flatMap {walkFrom : NodeId → List Field}
    (each : ∀ id ∈ ids, fields.Preorder [id] (walkFrom id)) :
    fields.Preorder ids (ids.flatMap walkFrom) := by
  induction ids with
  | nil => exact .nil
  | cons id ids ih =>
    obtain ⟨here, others⟩ := List.forall_mem_cons.mp each
    exact here.append (ih others)

end FieldMap

namespace Form

variable {form : Form} {top id other parent : NodeId}

/-! ## Downwards -/

namespace WellFormed

variable (wellFormed : form.WellFormed)
include wellFormed

theorem yields_descendants (stored : form.contains top) :
    Yields form.fields.nextBelow [top] (form.descendants top) := by
  have walk := wellFormed.walk_descendants stored .done
  rw [List.append_nil] at walk
  exact walk.yields

/-- What is listed at and below a field is in pre-order, by induction on what lies below. -/
theorem preorder_descendants (stored : form.contains top) :
    form.fields.Preorder [top] (form.descendants top) := by
  refine wellFormed.descend (motive := fun id => form.fields.Preorder [id] (form.descendants id))
    stored fun id stored ih => ?_
  obtain ⟨field, found⟩ := contains_iff.mp stored
  rw [children_of_get? found] at ih
  rw [wellFormed.descendants_eq found]
  have listed := FieldMap.Preorder.cons found (.flatMap ih) .nil
  rwa [List.append_nil] at listed

/-- A stretch goes on inside the stretch of every field above. -/
theorem span_sublist (under : form.Under top id) (stored : form.contains id) :
    (form.span id).Sublist (form.span top) := by
  induction under with
  | here => exact List.Sublist.refl _
  | step above _ ih =>
    have upper := wellFormed.contains_parent above
    refine List.Sublist.trans ?_ (ih upper)
    rw [wellFormed.span_eq upper]
    exact (List.sublist_flatten_of_mem
      (List.mem_map_of_mem (wellFormed.mem_children above))).cons _

/-- Siblings stand in their order among what lies at and below them. -/
theorem sublist_flatMap_span {ids : List NodeId} (stored : ∀ id ∈ ids, form.contains id) :
    ids.Sublist (ids.flatMap form.span) := by
  induction ids with
  | nil => exact List.Sublist.refl _
  | cons id ids ih =>
    obtain ⟨here, others⟩ := List.forall_mem_cons.mp stored
    rw [List.flatMap_cons, wellFormed.span_eq here]
    exact ((ih others).trans (List.sublist_append_right _ _)).cons_cons id

/-- A field comes before its children, and these come in their order. -/
theorem children_sublist_span (listed : id ∈ form.span top) :
    (id :: form.children id).Sublist (form.span top) := by
  obtain ⟨stored, under⟩ := wellFormed.mem_descendants_ids.mp listed
  refine List.Sublist.trans ?_ (wellFormed.span_sublist under stored)
  rw [wellFormed.span_eq stored]
  exact (wellFormed.sublist_flatMap_span fun _ => wellFormed.contains_child).cons_cons id

/-- The walk through the whole form meets every stored field once. -/
theorem preorder_perm :
    (form.preorder.map fun field => (field.id, field)).Perm form.fields.toList := by
  have distinct : (form.preorder.map fun field => (field.id, field)).Nodup :=
    .of_map Prod.fst (by
      rw [List.map_map]
      exact wellFormed.nodup_span wellFormed.root_stored)
  have stored : form.fields.toList.Nodup :=
    .of_map Prod.fst (by
      rw [Std.ExtTreeMap.map_fst_toList_eq_keys]
      exact Std.ExtTreeMap.nodup_keys)
  refine (List.perm_ext_iff_of_nodup distinct stored).mpr ?_
  rintro ⟨key, field⟩
  rw [Std.ExtTreeMap.mem_toList_iff_getElem?_eq_some, List.mem_map]
  constructor
  · rintro ⟨met, listed, same⟩
    cases same
    exact (wellFormed.mem_descendants.mp listed).1
  · intro found
    exact ⟨field, wellFormed.mem_preorder found, congrArg (·, field) (wellFormed.own_id found)⟩

end WellFormed

/-! ## Upwards -/

theorem Lineage.yields {line : List NodeId} (lineage : form.Lineage id line) :
    Yields form.nextAbove (some id) line := by
  induction lineage with
  | topmost none => exact .step rfl (.done (congrArg form.nextAbove none))
  | step above _ ih => exact .step rfl (above ▸ ih)

namespace WellFormed

variable (wellFormed : form.WellFormed)
include wellFormed

theorem yields_ancestors (id : NodeId) :
    Yields form.nextAbove (form.parent? id) (form.ancestors id) := by
  cases (wellFormed.lineage_ancestors id).yields with
  | step asked rest =>
    cases asked
    exact rest

/-- Every lineage ends with the root. -/
theorem getLast?_lineage {line : List NodeId} (stored : form.contains id)
    (lineage : form.Lineage id line) : line.getLast? = some form.root := by
  induction lineage with
  | @topmost id none =>
    by_cases top : id = form.root
    · exact congrArg some top
    · obtain ⟨parent, above⟩ := wellFormed.exists_parent stored top
      cases none.symm.trans above
  | step above lineage ih =>
    have last := ih (wellFormed.contains_parent above)
    rw [List.getLast?_cons, last]
    rfl

theorem getLast?_ancestors (stored : form.contains id) (inner : id ≠ form.root) :
    (form.ancestors id).getLast? = some form.root := by
  have last := wellFormed.getLast?_lineage stored (wellFormed.lineage_ancestors id)
  rw [List.getLast?_cons, Option.some.injEq] at last
  cases upper : (form.ancestors id).getLast? with
  | none =>
    rw [upper] at last
    exact absurd last inner
  | some top =>
    rw [upper] at last
    exact congrArg some last

/-- The walk upwards meets a field exactly if the walk down from that field comes back. -/
theorem mem_ancestors_iff_mem_span :
    top ∈ form.ancestors id ↔ id ≠ top ∧ id ∈ form.span top := by
  rw [wellFormed.mem_ancestors]
  unfold span
  rw [wellFormed.mem_descendants_ids]
  constructor
  · intro beneath
    have stored : form.contains id := beneath.elim fun _ both => contains_of_parent? both.1
    exact ⟨wellFormed.ne_of_beneath beneath, stored, beneath.under⟩
  · rintro ⟨different, -, under⟩
    exact under.eq_or_beneath.resolve_left different

end WellFormed

/-! ## The law -/

/-- **Walks end, and those up and down agree.**  The walk down from a field of a valid form ends and
gives just what lies at and below the field in pre-order: each field once, a field before its
children, and these in their order.  The walk from the root gives all fields that are stored, each
once.  The walk up from a field other than the root ends with the root.  It meets a field exactly if
the walk down from that field meets the one where it began, and that is another field. -/
theorem walks_agree (valid : form.validate = .ok ()) :
    (∀ top, form.contains top →
      (∀ met, Yields form.fields.nextBelow [top] met ↔ met = form.descendants top) ∧
      (∀ met, form.fields.Preorder [top] met ↔ met = form.descendants top) ∧
      (form.span top).Nodup ∧
      ∀ id ∈ form.span top, (id :: form.children id).Sublist (form.span top)) ∧
    (form.preorder.map fun field => (field.id, field)).Perm form.fields.toList ∧
    (∀ id met, Yields form.nextAbove (form.parent? id) met ↔ met = form.ancestors id) ∧
    (∀ id, form.contains id → id ≠ form.root →
      (form.ancestors id).getLast? = some form.root) ∧
    ∀ top id, top ∈ form.ancestors id ↔ id ≠ top ∧ id ∈ form.span top := by
  have wellFormed := validate_eq_ok_iff.mp valid
  refine ⟨fun top stored => ⟨fun met => ?_, fun met => ?_, wellFormed.nodup_span stored,
    fun id => wellFormed.children_sublist_span⟩, wellFormed.preorder_perm, fun id met => ?_,
    fun id => wellFormed.getLast?_ancestors, fun top id => wellFormed.mem_ancestors_iff_mem_span⟩
  · have yields := wellFormed.yields_descendants stored
    exact ⟨fun yields' => yields'.unique yields, fun same => same ▸ yields⟩
  · have preorder := wellFormed.preorder_descendants stored
    exact ⟨fun preorder' => preorder'.unique preorder, fun same => same ▸ preorder⟩
  · have yields := wellFormed.yields_ancestors id
    exact ⟨fun yields' => yields'.unique yields, fun same => same ▸ yields⟩

/-- Down from the first of two siblings the walk meets its two children and ends before the other
sibling; up from the second child it meets that first sibling and then the root. -/
theorem walks_agree_siblings :
    let form := (Branch.ofOutline ⟨10⟩ (.node .empty
      [.node .empty [.node .empty [], .node .empty []], .node .empty []])).toForm
    form.validate = .ok () ∧
    Yields form.fields.nextBelow [⟨11⟩] (form.descendants ⟨11⟩) ∧
    form.span ⟨11⟩ = [⟨11⟩, ⟨12⟩, ⟨13⟩] ∧
    Yields form.nextAbove (some ⟨11⟩) [⟨11⟩, ⟨10⟩] ∧
    ⟨11⟩ ∈ form.ancestors ⟨13⟩ ∧ ⟨11⟩ ∉ form.ancestors ⟨14⟩ := by
  intro form
  have valid : form.validate = .ok () := by decide +kernel
  obtain ⟨down, -, up, -, agree⟩ := walks_agree valid
  have span : form.span ⟨11⟩ = [⟨11⟩, ⟨12⟩, ⟨13⟩] := by decide +kernel
  refine ⟨valid, ((down ⟨11⟩ (by decide +kernel)).1 _).mpr rfl, span,
    (up ⟨13⟩ _).mpr (by decide +kernel), (agree _ _).mpr ⟨by decide, ?_⟩, fun listed => ?_⟩
  · rw [span]
    decide
  · have inside := ((agree _ _).mp listed).2
    rw [span] at inside
    exact absurd inside (by decide)

end Form

end FormEditor
