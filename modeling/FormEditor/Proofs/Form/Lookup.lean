import FormEditor.Form.Links

/-!
# Looking fields up after a change

A form is its root together with what is stored under each id (`Form.ext_get?`).  The lemmas here
say what every elementary change does to the look-up `Form.get?`, and how the derived questions
(`children`, `parent?`, `contains`, `siblingIndex?`) are answered from it.
-/

set_option autoImplicit false

namespace FormEditor

theorem FieldMap.getElem?_modify {fields : FieldMap} {id other : NodeId} {change : Field → Field} :
    (fields.modify id change)[other]? =
      if other = id then fields[other]?.map change else fields[other]? := by
  rw [Std.ExtTreeMap.getElem?_modify]
  by_cases same : other = id
  · subst same
    simp
  · have different : ¬ compare id other = .eq := by
      rw [Std.LawfulEqOrd.compare_eq_iff_eq]
      exact fun equal => same equal.symm
    rw [if_neg different, if_neg same]

theorem FieldMap.getElem?_insert {fields : FieldMap} {id other : NodeId} {field : Field} :
    (fields.insert id field)[other]? = if other = id then some field else fields[other]? := by
  rw [Std.ExtTreeMap.getElem?_insert]
  by_cases same : other = id
  · subst same
    simp
  · have different : ¬ compare id other = .eq := by
      rw [Std.LawfulEqOrd.compare_eq_iff_eq]
      exact fun equal => same equal.symm
    rw [if_neg different, if_neg same]

/-- Entries with distinct keys that are stored one after the other are found under their keys. -/
theorem FieldMap.getElem?_foldl_insert {entries : List (NodeId × Field)}
    (distinct : (entries.map Prod.fst).Nodup) {stored : FieldMap} {id : NodeId} :
    (entries.foldl (fun stored entry => stored.insert entry.1 entry.2) stored)[id]? =
      ((entries.find? fun entry => entry.1 = id).map Prod.snd).or stored[id]? := by
  induction entries generalizing stored with
  | nil => rfl
  | cons entry entries ih =>
    obtain ⟨fresh, distinct⟩ := List.nodup_cons.mp distinct
    rw [List.foldl_cons, ih distinct, FieldMap.getElem?_insert]
    by_cases here : entry.1 = id
    · have later : (entries.find? fun entry => entry.1 = id) = none := by
        rw [List.find?_eq_none]
        intro other listed same
        exact fresh (here.trans (of_decide_eq_true same).symm ▸ List.mem_map_of_mem listed)
      rw [List.find?_cons_of_pos (by simpa using here), later, if_pos here.symm]
      rfl
    · rw [List.find?_cons_of_neg (by simpa using here), if_neg (Ne.symm here)]

namespace Form

variable {form : Form} {id other parent : NodeId}

/-- Two forms are equal when they have one root and store the same under every id. -/
theorem ext_get? {left right : Form} (root : left.root = right.root)
    (fields : ∀ id, left.get? id = right.get? id) : left = right := by
  cases left
  cases right
  cases root
  congr
  exact Std.ExtTreeMap.ext_getElem? fields

/-! ## The derived questions -/

theorem contains_iff : form.contains id ↔ ∃ field, form.get? id = some field :=
  Option.isSome_iff_exists

theorem contains_of_get? {field : Field} (stored : form.get? id = some field) :
    form.contains id :=
  contains_iff.mpr ⟨field, stored⟩

theorem not_contains_iff : ¬ form.contains id ↔ form.get? id = none := by
  unfold contains
  cases form.get? id <;> simp

theorem mem_keys_iff : id ∈ form.fields.keys ↔ form.contains id := by
  rw [Std.ExtTreeMap.mem_keys, Std.ExtTreeMap.mem_iff_isSome_getElem?]
  rfl

theorem children_of_get? {field : Field} (stored : form.get? id = some field) :
    form.children id = field.children := by
  simp only [children, stored, Option.map_some, Option.getD_some]

theorem parent?_of_get? {field : Field} (stored : form.get? id = some field) :
    form.parent? id = field.parent := by
  simp only [parent?, stored, Option.bind_some]

theorem children_of_not_contains (missing : ¬ form.contains id) : form.children id = [] := by
  simp only [children, not_contains_iff.mp missing, Option.map_none, Option.getD_none]

theorem parent?_of_not_contains (missing : ¬ form.contains id) : form.parent? id = none := by
  simp only [parent?, not_contains_iff.mp missing, Option.bind_none]

theorem contains_of_parent? (above : form.parent? id = some parent) : form.contains id := by
  cases stored : form.get? id with
  | none => simp only [parent?, stored, Option.bind_none, reduceCtorEq] at above
  | some field => exact contains_of_get? stored

theorem contains_of_mem_children {child : NodeId} (listed : child ∈ form.children parent) :
    form.contains parent := by
  cases stored : form.get? parent with
  | none =>
    simp only [children, stored, Option.map_none, Option.getD_none, List.not_mem_nil] at listed
  | some field => exact contains_of_get? stored

theorem field_eq_ok_iff {field : Field} :
    form.field id = .ok field ↔ form.get? id = some field := by
  unfold Form.field
  cases form.get? id <;> simp

theorem field_of_get? {field : Field} (stored : form.get? id = some field) :
    form.field id = .ok field :=
  field_eq_ok_iff.mpr stored

theorem field_of_not_contains (missing : ¬ form.contains id) :
    form.field id = .error (.nodeNotFound id) := by
  simp only [Form.field, not_contains_iff.mp missing]

/-! ## Changing one field -/

theorem get?_modifyField {change : Field → Field} :
    (form.modifyField id change).get? other =
      if other = id then (form.get? other).map change else form.get? other :=
  FieldMap.getElem?_modify

@[simp] theorem contains_modifyField {change : Field → Field} :
    (form.modifyField id change).contains other = form.contains other := by
  unfold contains
  rw [get?_modifyField]
  split <;> simp

/-- A change that keeps the parent of every field keeps the answer about parents. -/
theorem parent?_modifyField {change : Field → Field}
    (keeps : ∀ field, (change field).parent = field.parent) :
    (form.modifyField id change).parent? other = form.parent? other := by
  unfold parent?
  rw [get?_modifyField]
  split
  · cases form.get? other <;> simp [keeps]
  · rfl

/-! ## Highlights -/

/-- Whether a field is in the form and highlighted. -/
def isHighlighted (form : Form) (id : NodeId) : Bool := (form.get? id).any Field.highlighted

theorem isHighlighted_of_get? {field : Field} (stored : form.get? id = some field) :
    form.isHighlighted id = field.highlighted := by
  simp only [isHighlighted, stored, Option.any_some]

theorem contains_of_isHighlighted (lit : form.isHighlighted id) : form.contains id := by
  cases stored : form.get? id with
  | none => simp [isHighlighted, stored] at lit
  | some field => exact contains_of_get? stored

theorem get?_setHighlighted {value : Bool} :
    (form.setHighlighted value id).get? other =
      if other = id then (form.get? other).map fun field => { field with highlighted := value }
      else form.get? other :=
  get?_modifyField

theorem isHighlighted_setHighlighted {value : Bool} :
    (form.setHighlighted value id).isHighlighted other =
      if other = id then form.contains other && value else form.isHighlighted other := by
  simp only [isHighlighted, get?_setHighlighted, contains]
  split
  · cases form.get? other <;> simp
  · rfl

theorem root_setAllHighlighted {value : Bool} {ids : List NodeId} :
    (form.setAllHighlighted value ids).root = form.root := by
  induction ids generalizing form with
  | nil => rfl
  | cons id ids ih =>
    show ((form.setHighlighted value id).setAllHighlighted value ids).root = form.root
    exact ih

theorem isHighlighted_setAllHighlighted {value : Bool} {ids : List NodeId} :
    (form.setAllHighlighted value ids).isHighlighted other =
      if other ∈ ids then form.contains other && value else form.isHighlighted other := by
  induction ids generalizing form with
  | nil => simp [setAllHighlighted]
  | cons id ids ih =>
    have unfolded : form.setAllHighlighted value (id :: ids) =
        (form.setHighlighted value id).setAllHighlighted value ids := rfl
    rw [unfolded, ih, isHighlighted_setHighlighted]
    have kept : (form.setHighlighted value id).contains other = form.contains other :=
      contains_modifyField
    by_cases later : other ∈ ids
    · rw [if_pos later, kept, if_pos (List.mem_cons_of_mem _ later)]
    · rw [if_neg later]
      by_cases first : other = id
      · rw [if_pos first, if_pos (first ▸ List.mem_cons_self)]
      · rw [if_neg first, if_neg (by simp [first, later])]

end Form

end FormEditor
