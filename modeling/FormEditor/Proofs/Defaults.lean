import FormEditor.Form.Locks
import FormEditor.Proofs.Form.Plans
import FormEditor.Proofs.Logs

/-!
# Loading defaults

Loading defaults fills the fields at and below the given ones.  However these overlap, each field is
met once, and what is loaded depends on the field alone; so the given fields may be listed in any
order, and the second time everything is there already.

Whoever is about to load defaults can ask beforehand whether a value would be overwritten
(`Form.isAnyDefaultFilled`).  The question walks through the form by itself, and meets a field as
often as it lies below a given one, but it meets the same fields as the edit.  If it answers no,
then nothing that was entered is lost.

Main statement: `Form.defaults_law`.
-/

set_option autoImplicit false

namespace FormEditor

variable {form : Form} {id : NodeId} {ids : List NodeId} {field : Field} {text : String}
  {change : Change}

namespace Form

/-- What loading defaults assigns in a field. -/
def loading (field : Field) : List Assignment :=
  match field.payload.default? with
  | none => []
  | some text => [(field.payload.valueName, some text)]

theorem loading_of_none (none : field.payload.default? = none) : loading field = [] := by
  rw [loading, none]

theorem loading_of_some (default : field.payload.default? = some text) :
    loading field = [(AttributeName.value, some text)] := by
  rw [loading, default]
  rfl

end Form

/-! ## One field -/

namespace Field

theorem amended_loading_of_none (none : field.payload.default? = none) :
    field.amended Form.loading = field :=
  amended_eq_self (by rw [Form.loading_of_none none]; exact nofun)

theorem attributes_amended_loading (default : field.payload.default? = some text) :
    (field.amended Form.loading).attributes =
      field.attributes.assign AttributeName.value (some text) := by
  show field.attributes.assignAll (Form.loading field) = _
  rw [Form.loading_of_some default]
  rfl

/-- The default value is found as the current one, whatever the bag looks like. -/
theorem current?_amended_loading (default : field.payload.default? = some text) :
    (field.amended Form.loading).payload.current? = some text := by
  show (field.amended Form.loading).attributes.get? AttributeName.value = some text
  rw [attributes_amended_loading default, Attributes.get?_assign_some]

/-- Loading a default does not change the default. -/
theorem default?_amended_loading :
    (field.amended Form.loading).payload.default? = field.payload.default? := by
  cases default : field.payload.default? with
  | none => rw [amended_loading_of_none default, default]
  | some text =>
    show (field.amended Form.loading).attributes.get? AttributeName.defaultValue = some text
    rw [attributes_amended_loading default, Attributes.get?_assign_of_ne (by decide)]
    exact default

theorem apart_amended_loading :
    (field.amended Form.loading).apart [AttributeName.value] =
      field.apart [AttributeName.value] := by
  have named : ∀ assignment ∈ Form.loading field, assignment.1 ∈ [AttributeName.value] := by
    intro assignment planned
    cases default : field.payload.default? with
    | none =>
      rw [Form.loading_of_none default] at planned
      cases planned
    | some text =>
      rw [Form.loading_of_some default, List.mem_singleton] at planned
      rw [planned]
      exact List.mem_singleton_self _
  show { field with attributes := (field.attributes.assignAll (Form.loading field)).apart _ } = _
  rw [Attributes.apart_assignAll named]
  rfl

end Field

namespace Form

/-- The change that loading makes in a field: the current value becomes the default value. -/
theorem mem_amendBag_loading (listed : change ∈ (amendBag id field.attributes (loading field)).1) :
    field.payload.default?.isSome ∧ change.before = field.payload.current? := by
  cases default : field.payload.default? with
  | none =>
    rw [loading_of_none default] at listed
    cases listed
  | some text =>
    rw [loading_of_some default, amendBag] at listed
    split at listed
    · cases listed
    · rw [List.mem_singleton.mp listed]
      exact ⟨rfl, Attributes.exchange_fst⟩

/-! ## What would be overwritten -/

theorem isAnyDefaultFilled_eq_false_iff {fields : List Field} :
    isAnyDefaultFilled fields = false ↔
      ∀ field ∈ fields, field.payload.default?.isSome →
        field.payload.current? = none ∨ field.payload.current? = some "" := by
  unfold isAnyDefaultFilled
  rw [List.any_eq_false]
  refine forall₂_congr fun field _ => ?_
  cases field.payload.default? <;> cases field.payload.current? <;> simp

/-- The question for given fields meets all that the edit meets. -/
theorem WellFormed.mem_flatMap_descendants (wellFormed : form.WellFormed)
    (listed : id ∈ form.subtreeIds ids) (stored : form.get? id = some field) :
    field ∈ ids.flatMap form.descendants := by
  obtain ⟨-, top, given, under⟩ := wellFormed.mem_subtreeIds.mp listed
  have named : field.id = id := wellFormed.own_id stored
  refine List.mem_flatMap.mpr ⟨top, given, wellFormed.mem_descendants.mpr ?_⟩
  rw [named]
  exact ⟨stored, under⟩

/-! ## The law -/

theorem loadDefaults_eq (present : ∀ id ∈ ids, form.contains id) :
    loadDefaults ids form = .ok (form.amend loading (form.subtreeIds ids)).1
      (form.amend loading (form.subtreeIds ids)).2 :=
  amend_of_present present

/-- Each field that is met has its default loaded once. -/
theorem get?_amend_loading :
    (form.amend loading (form.subtreeIds ids)).2.get? id = (form.get? id).map fun field =>
      if id ∈ form.subtreeIds ids then field.amended loading else field :=
  get?_amend_of_nodup nodup_subtreeIds

/-- Where the defaults have been loaded, there is nothing to load. -/
theorem WellFormed.loaded_again (wellFormed : form.WellFormed) {after : Form}
    (loaded : (form.amend loading (form.subtreeIds ids)).2 = after) :
    (after.amend loading (after.subtreeIds ids)).1 = [] := by
  subst loaded
  refine amend_fst_eq_nil_iff.mpr fun id listed field' stored' assignment planned => ?_
  rw [wellFormed.mem_subtreeIds_amend] at listed
  rw [get?_amend_loading, Option.map_eq_some_iff] at stored'
  obtain ⟨field, stored, rfl⟩ := stored'
  rw [if_pos listed] at planned ⊢
  cases default : field.payload.default? with
  | none =>
    rw [loading_of_none (Field.default?_amended_loading.trans default)] at planned
    cases planned
  | some text =>
    rw [loading_of_some (Field.default?_amended_loading.trans default), List.mem_singleton]
      at planned
    rw [planned]
    exact Field.current?_amended_loading default

/-- What loading overwrites is the value of a field that is met and has a default. -/
theorem WellFormed.overwritten (wellFormed : form.WellFormed)
    (asked : isAnyDefaultFilled (ids.flatMap form.descendants) = false ∨
      isAnyDefaultFilled form.preorder = false)
    (listed : change ∈ (form.amend loading (form.subtreeIds ids)).1) :
    change.before = none ∨ change.before = some "" := by
  obtain ⟨id, met, field, stored, made⟩ := (mem_amend nodup_subtreeIds).mp listed
  obtain ⟨default, before⟩ := mem_amendBag_loading made
  rw [before]
  rcases asked with below | everywhere
  · exact isAnyDefaultFilled_eq_false_iff.mp below field
      (wellFormed.mem_flatMap_descendants met stored) default
  · exact isAnyDefaultFilled_eq_false_iff.mp everywhere field
      (wellFormed.mem_preorder stored) default

/-- What loading the defaults at and below given fields does. -/
structure LoadsDefaults (form : Form) (ids : List NodeId) (changes : List Change) (after : Form) :
    Prop where
  /-- A field at or below the given ones has its default value, if it has one, as its value. -/
  loaded : ∀ id field text, form.get? id = some field → (∃ top ∈ ids, form.Under top id) →
    field.payload.default? = some text →
      ∃ field', after.get? id = some field' ∧ field'.payload.current? = some text
  /-- All other fields are as before. -/
  kept : ∀ id, ((∃ top ∈ ids, form.Under top id) →
    ∀ field, form.get? id = some field → field.payload.default? = none) →
      after.get? id = form.get? id
  /-- Everything but the entries of the value is as before in every field. -/
  apart : after.root = form.root ∧ ∀ id, (after.get? id).map (Field.apart [AttributeName.value]) =
    (form.get? id).map (Field.apart [AttributeName.value])
  /-- Each field is changed once at most. -/
  once : (changes.map Change.node).Nodup
  /-- In which order and how often the given fields are listed makes no difference to the form. -/
  anyOrder : ∀ others, (∀ id, id ∈ others ↔ id ∈ ids) →
    ∃ made, loadDefaults others form = .ok made after
  /-- The second time there is nothing to do. -/
  again : loadDefaults ids after = .ok [] after
  /-- If no value would be overwritten, at and below the given fields or in the whole form, then
  none is. -/
  lossless : isAnyDefaultFilled (ids.flatMap form.descendants) = false ∨
    isAnyDefaultFilled form.preorder = false →
      ∀ change ∈ changes, change.before = none ∨ change.before = some ""

/-- **Loading defaults.**  In a valid form it succeeds for any fields that are there. -/
theorem defaults_law (valid : form.validate = .ok ()) (present : ∀ id ∈ ids, form.contains id) :
    ∃ changes after, loadDefaults ids form = .ok changes after ∧
      form.LoadsDefaults ids changes after := by
  have wellFormed := validate_eq_ok_iff.mp valid
  refine ⟨_, _, loadDefaults_eq present, ?_⟩
  constructor
  case loaded =>
    intro id field text stored below default
    have listed := wellFormed.mem_subtreeIds.mpr ⟨contains_of_get? stored, below⟩
    refine ⟨field.amended loading, ?_, Field.current?_amended_loading default⟩
    rw [get?_amend_loading, stored, Option.map_some, if_pos listed]
  case kept =>
    intro id untouched
    rw [get?_amend_loading]
    cases stored : form.get? id with
    | none => rfl
    | some field =>
      rw [Option.map_some]
      split
      · rename_i listed
        have below := (wellFormed.mem_subtreeIds.mp listed).2
        rw [Field.amended_loading_of_none (untouched below field stored)]
      · rfl
  case apart =>
    refine ⟨amend_links.1, fun id => ?_⟩
    rw [get?_amend_loading, Option.map_map]
    congr 1
    funext field
    show Field.apart _ (if _ then _ else _) = _
    split
    · exact Field.apart_amended_loading
    · rfl
  case once =>
    refine (nodes_amend_sublist fun field => ?_).nodup nodup_subtreeIds
    unfold loading
    split
    · exact Nat.zero_le 1
    · exact Nat.le_refl 1
  case anyOrder =>
    intro others same
    have met : ∀ id, id ∈ form.subtreeIds ids ↔ id ∈ form.subtreeIds others := by
      intro id
      rw [wellFormed.mem_subtreeIds, wellFormed.mem_subtreeIds]
      simp only [same]
    rw [amend_congr nodup_subtreeIds nodup_subtreeIds met]
    exact ⟨_, loadDefaults_eq fun id listed => present id ((same id).mp listed)⟩
  case again =>
    rw [loadDefaults_eq (present_amend present), wellFormed.loaded_again rfl,
      amend_eq_self (wellFormed.loaded_again rfl)]
  case lossless =>
    exact fun asked change listed => wellFormed.overwritten asked listed

/-- A field is given by itself and below its parent, and its value is empty: its default is loaded,
no entered value is lost, and the second time there is nothing to do. -/
theorem defaults_law_overlapping :
    let form := ValueEdit.holding [("default", "7"), ("value", "")]
    let ids : List NodeId := [⟨11⟩, ⟨10⟩]
    ∃ changes after, loadDefaults ids form = .ok changes after ∧
      (∃ field, after.get? ⟨11⟩ = some field ∧ field.payload.current? = some "7") ∧
      loadDefaults ids after = .ok [] after ∧
      ∀ change ∈ changes, change.before = none ∨ change.before = some "" := by
  intro form ids
  have valid : form.validate = .ok () := by decide +kernel
  have present : ∀ id ∈ ids, form.contains id := by decide +kernel
  have asked : isAnyDefaultFilled form.preorder = false := by decide +kernel
  have default : (form.get? ⟨11⟩).bind (fun field => field.payload.default?) = some "7" := by
    decide +kernel
  obtain ⟨field, stored, found⟩ := Option.bind_eq_some_iff.mp default
  obtain ⟨changes, after, done, law⟩ := defaults_law valid present
  exact ⟨changes, after, done,
    law.loaded ⟨11⟩ field "7" stored ⟨_, List.mem_cons_self, .here⟩ found, law.again,
    law.lossless (.inr asked)⟩

end Form

end FormEditor
