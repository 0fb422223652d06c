import FormEditor.Form.Saved
import FormEditor.Proofs.Form.Alike
import FormEditor.Proofs.Json.Documents

/-!
# Documents of forms

The document of a form lists the fields in whatever order the storage gives them
(`Form.toJsonInOrder`).  It describes the form again, whether or not the links of the form fit
together, except for the highlights, which are not saved (`partsOfJson?_toJsonInOrder`).  All that
it takes is that ids have no more than 32 hexadecimal digits (`Form.Writable`).
-/

set_option autoImplicit false

namespace FormEditor

/-! ## Ids and bags -/

/-- An id that has 32 hexadecimal digits. -/
def NodeId.Writable (id : NodeId) : Prop := id.number < 16 ^ 32

instance (id : NodeId) : Decidable id.Writable := inferInstanceAs (Decidable (_ < _))

theorem NodeId.ofJson?_toJson {id : NodeId} (writable : id.Writable) :
    ofJson? (id.toJson text) = some id := by
  unfold ofJson? toJson
  rw [Json.string?_ofString, Option.bind_some, ofText?_text writable]

/-- A bag comes back with its entries in their order, repeated names included. -/
theorem Attributes.ofJson?_toJson (bag : Attributes) : ofJson? bag.toJson = some bag := by
  let items := bag.entries.map fun entry => Json.list [.ofString entry.1, .ofString entry.2]
  have entries : items.mapM entryOfJson? = some (bag.entries.map id) := by
    refine Json.mapM_map fun entry _ => ?_
    simp only [entryOfJson?, Json.items?, Option.bind_some, Json.string?_ofString, Option.map_some,
      id_eq]
  have shape : bag.toJson.shape? ["entries"] = some [some (.list items)] :=
    Json.shape?_ofMembers (show ["entries"].Nodup by decide)
  unfold ofJson?
  rw [shape, Option.bind_some]
  dsimp only
  rw [Json.items?, Option.bind_some, entries, List.map_id, Option.map_some]

theorem Attributes.legible_toJson (bag : Attributes) : bag.toJson.Legible := by
  refine Json.legible_ofMembers fun member listed => ?_
  obtain rfl := List.mem_singleton.mp listed
  refine Json.legible_list fun item listed => ?_
  obtain ⟨entry, -, rfl⟩ := List.mem_map.mp listed
  refine Json.legible_list fun part listed => ?_
  rcases List.mem_pair.mp listed with rfl | rfl <;> exact Json.legible_ofString _

/-! ## Fields -/

namespace Field

variable {field : Field}

/-- All ids in a field have 32 digits. -/
structure Writable (field : Field) : Prop where
  id : field.id.Writable
  parent : ∀ parent ∈ field.parent, parent.Writable
  children : ∀ child ∈ field.children, child.Writable

instance (field : Field) : Decidable field.Writable :=
  decidable_of_iff
    (field.id.Writable ∧ (∀ parent ∈ field.parent, parent.Writable) ∧
      ∀ child ∈ field.children, child.Writable)
    ⟨fun ⟨id, parent, children⟩ => ⟨id, parent, children⟩,
      fun ⟨id, parent, children⟩ => ⟨id, parent, children⟩⟩

/-- The field without a highlight. -/
def dimmed (field : Field) : Field := { field with highlighted := false }

/-- A field comes back without its highlight. -/
theorem ofJson?_toJson (writable : field.Writable) :
    ofJson? (field.toJson NodeId.text) = some field.dimmed := by
  have parent : parentOfJson? (some (.ofOption (NodeId.toJson NodeId.text) field.parent)) =
      some field.parent := by
    cases above : field.parent with
    | none => rfl
    | some parent =>
      show (NodeId.ofJson? (parent.toJson NodeId.text)).map some = _
      rw [NodeId.ofJson?_toJson (writable.parent parent above), Option.map_some]
  have children : (field.children.map (NodeId.toJson NodeId.text)).mapM NodeId.ofJson? =
      some (field.children.map fun child => child) :=
    Json.mapM_map fun child listed => NodeId.ofJson?_toJson (writable.children child listed)
  rw [List.map_id'] at children
  have shape : (field.toJson NodeId.text).shape? ["id", "parent", "children", "attributes"] =
      some [some (field.id.toJson NodeId.text),
        some (.ofOption (NodeId.toJson NodeId.text) field.parent),
        some (.list (field.children.map (NodeId.toJson NodeId.text))),
        some field.attributes.toJson] :=
    Json.shape?_ofMembers (show ["id", "parent", "children", "attributes"].Nodup by decide)
  unfold ofJson?
  rw [shape, Option.bind_some]
  simp only [NodeId.ofJson?_toJson writable.id, parent, Json.items?, children,
    Attributes.ofJson?_toJson, Option.bind_eq_bind, Option.bind_some, Option.pure_def]
  rfl

theorem legible_toJson : (field.toJson NodeId.text).Legible := by
  refine Json.legible_ofMembers fun member listed => ?_
  simp only [List.mem_cons, List.not_mem_nil, or_false] at listed
  rcases listed with rfl | rfl | rfl | rfl
  · exact Json.legible_ofString _
  · cases field.parent with
    | none => exact Json.legible_null
    | some parent => exact Json.legible_ofString _
  · refine Json.legible_list fun item listed => ?_
    obtain ⟨child, -, rfl⟩ := List.mem_map.mp listed
    exact Json.legible_ofString _
  · exact field.attributes.legible_toJson

end Field

/-! ## Forms -/

namespace Form

variable {form : Form} {entries : List (NodeId × Field)}

/-- All ids in a form have 32 digits. -/
structure Writable (form : Form) : Prop where
  root : form.root.Writable
  keys : ∀ id, form.contains id → id.Writable
  fields : ∀ id field, form.get? id = some field → field.Writable

/-- Whether ids have 32 digits is seen from the entries. -/
theorem writable_of_entries (root : form.root.Writable)
    (written : ∀ entry ∈ form.fields.toList, entry.1.Writable ∧ entry.2.Writable) :
    form.Writable := by
  have both : ∀ id field, form.get? id = some field → id.Writable ∧ field.Writable :=
    fun id field stored =>
      written (id, field) (Std.ExtTreeMap.mem_toList_iff_getElem?_eq_some.mpr stored)
  refine ⟨root, fun id stored => ?_, fun id field stored => (both id field stored).2⟩
  obtain ⟨field, found⟩ := contains_iff.mp stored
  exact (both id field found).1

/-- The form without any highlight. -/
def dimmed (form : Form) : Form :=
  { form with fields := form.fields.map fun _ field => field.dimmed }

theorem get?_dimmed {id : NodeId} : form.dimmed.get? id = (form.get? id).map Field.dimmed := by
  show (Std.ExtTreeMap.map _ form.fields)[id]? = _
  rw [Std.ExtTreeMap.getElem?_map]
  rfl

theorem legible_toJsonInOrder : (form.toJsonInOrder NodeId.text entries).Legible := by
  refine Json.legible_ofMembers fun member listed => ?_
  rcases List.mem_pair.mp listed with rfl | rfl
  · exact Json.legible_ofString _
  · refine Json.legible_ofMembers fun member listed => ?_
    obtain ⟨entry, -, rfl⟩ := List.mem_map.mp listed
    exact Field.legible_toJson

/-- The entries of a form have distinct keys. -/
theorem nodup_keys_of_perm (order : entries.Perm form.fields.toList) :
    (entries.map Prod.fst).Nodup := by
  have keys := order.map Prod.fst
  rw [Std.ExtTreeMap.map_fst_toList_eq_keys] at keys
  exact keys.nodup_iff.mpr Std.ExtTreeMap.nodup_keys

theorem find?_of_perm (order : entries.Perm form.fields.toList) {id : NodeId} :
    (entries.find? fun entry => entry.1 = id).map Prod.snd = form.get? id := by
  have listed : ∀ key field, (key, field) ∈ entries ↔ form.get? key = some field :=
    fun key field => order.mem_iff.trans Std.ExtTreeMap.mem_toList_iff_getElem?_eq_some
  cases found : entries.find? fun entry => entry.1 = id with
  | none =>
    cases stored : form.get? id with
    | none => rfl
    | some field =>
      exact absurd (decide_eq_true rfl)
        (List.find?_eq_none.mp found (id, field) ((listed id field).mpr stored))
  | some entry =>
    have same := List.find?_some found
    have here : entry.1 = id := of_decide_eq_true same
    rw [← here, (listed entry.1 entry.2).mp (List.mem_of_find?_eq_some found), Option.map_some]

/-- **The document of a form describes the form**, without its highlights. -/
theorem partsOfJson?_toJsonInOrder (writable : form.Writable)
    (order : entries.Perm form.fields.toList) :
    partsOfJson? (form.toJsonInOrder NodeId.text entries) = some form.dimmed := by
  have stored : ∀ entry ∈ entries, form.get? entry.1 = some entry.2 := fun entry listed =>
    Std.ExtTreeMap.mem_toList_iff_getElem?_eq_some.mp (order.mem_iff.mp listed)
  let members := entries.map fun entry => (entry.1.text, entry.2.toJson NodeId.text)
  have read : members.mapM memberOfJson? =
      some (entries.map fun entry => (entry.1, entry.2.dimmed)) := by
    refine Json.mapM_map fun entry listed => ?_
    have found := stored entry listed
    simp only [memberOfJson?, NodeId.ofText?_text (writable.keys _ (contains_of_get? found)),
      Field.ofJson?_toJson (writable.fields _ _ found), Option.bind_eq_bind, Option.bind_some,
      Option.pure_def]
  have fields : fieldsOfJson? (.ofMembers members) = some form.dimmed.fields := by
    unfold fieldsOfJson?
    rw [Json.members?_ofMembers, Option.bind_eq_bind, Option.bind_some, read, Option.bind_eq_bind,
      Option.bind_some]
    refine congrArg some (Std.ExtTreeMap.ext_getElem? fun id => ?_)
    have keys : ((entries.map fun entry => (entry.1, entry.2.dimmed)).map Prod.fst).Nodup := by
      rw [List.map_map]
      exact nodup_keys_of_perm order
    have dimmed : form.dimmed.get? id = _ := get?_dimmed
    rw [FieldMap.getElem?_foldl_insert keys, Std.ExtTreeMap.getElem?_empty, Option.or_none,
      List.find?_map, Option.map_map]
    rw [← find?_of_perm order, Option.map_map] at dimmed
    exact dimmed.symm
  have shape : (form.toJsonInOrder NodeId.text entries).shape? ["root", "nodes"] =
      some [some (form.root.toJson NodeId.text), some (.ofMembers members)] :=
    Json.shape?_ofMembers (show ["root", "nodes"].Nodup by decide)
  unfold partsOfJson?
  rw [shape, Option.bind_some]
  simp only [NodeId.ofJson?_toJson writable.root, fields, Option.bind_eq_bind, Option.bind_some,
    Option.pure_def]
  rfl

theorem alike_dimmed : form.Alike (fun bag => bag) form.dimmed := by
  refine ⟨rfl, ?_⟩
  intro id
  rw [get?_dimmed, Option.map_map]
  rfl

theorem dimmed_dimmed : form.dimmed.dimmed = form.dimmed := by
  refine ext_get? rfl ?_
  intro id
  rw [get?_dimmed, get?_dimmed, Option.map_map]
  rfl

end Form

end FormEditor
