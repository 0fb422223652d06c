import FormEditor.Proofs.Form.Values

/-!
# The order of attributes after changes are taken back

Taking changes back restores the names and the values of every bag.  Their order it restores only in
part: a name that was taken out is written back at the end, and of several such names the one
that was taken out first comes last (`Change.dropped`).  The others keep their order.

Main statements: taking changes back moves what they had taken out to the end, and nothing else
(`Form.Traces.rewritten_back`); carrying the changes out once more then leads exactly to where they
had led before (`Form.Legible.rewritten_reordered`); and the form is exactly as before if what
was taken out had stood at the end, in the order in which it comes back
(`Form.Legible.reordered_eq_iff`).
-/

set_option autoImplicit false

namespace FormEditor

namespace Change

variable {change : Change} {changes : List Change} {id : NodeId}

/-! ## What changes take out -/

/-- The changes of one field. -/
def ofField (id : NodeId) (changes : List Change) : List Change :=
  changes.filter fun change => change.node = id

theorem ofField_cons_self :
    ofField change.node (change :: changes) = change :: ofField change.node changes :=
  List.filter_cons_of_pos (by simp)

theorem ofField_cons_of_ne (elsewhere : change.node ≠ id) :
    ofField id (change :: changes) = ofField id changes :=
  List.filter_cons_of_neg (by simpa using elsewhere)

/-- The names that changes take out, each once; what is taken out first stands last. -/
def dropped : List Change → List String
  | [] => []
  | change :: changes =>
    if change.after = none then (dropped changes).filter (· ≠ change.name) ++ [change.name]
    else dropped changes

theorem dropped_eq_nil (written : ∀ change ∈ changes, change.after ≠ none) :
    dropped changes = [] := by
  induction changes with
  | nil => rfl
  | cons change changes ih =>
    obtain ⟨here, later⟩ := List.forall_mem_cons.mp written
    unfold dropped
    rw [if_neg here, ih later]

theorem nodup_dropped (changes : List Change) : (dropped changes).Nodup := by
  induction changes with
  | nil => exact List.nodup_nil
  | cons change changes ih =>
    unfold dropped
    split
    · refine (ih.filter _).append (List.nodup_singleton _) ?_
      intro name kept last
      exact of_decide_eq_true (List.mem_filter.mp kept).2 (List.mem_singleton.mp last)
    · exact ih

end Change

namespace Attributes

variable {bag left right : Attributes} {name : String} {value : Option String}
  {last : List String} {changes : List Change}

/-! ## Names at the end -/

/-- The bag with the entries of some names at its end, in the order of these names. -/
def withLast (bag : Attributes) (last : List String) : Attributes :=
  ⟨bag.entries.filter (fun entry => entry.1 ∉ last) ++
    last.filterMap fun name => (bag.get? name).map fun value => (name, value)⟩

theorem names_withLast :
    (bag.withLast last).names = bag.names.filter (· ∉ last) ++ last.filter (· ∈ bag.names) := by
  have moved : (last.filterMap fun name => (bag.get? name).map fun value => (name, value)).map
      Prod.fst = last.filter (· ∈ bag.names) := by
    rw [List.map_filterMap, ← List.filterMap_eq_filter]
    refine List.filterMap_congr fun name _ => ?_
    by_cases listed : name ∈ bag.names
    · obtain ⟨value, found⟩ := mem_names_iff.mp listed
      simp [found, Option.guard, listed]
    · simp [get?_eq_none_iff.mpr listed, Option.guard, listed]
  have kept : (bag.entries.filter fun entry => entry.1 ∉ last).map Prod.fst =
      bag.names.filter (· ∉ last) := by
    rw [names, List.filter_map]
    rfl
  rw [← kept, ← moved, ← List.map_append]
  rfl

theorem Distinct.withLast (distinct : bag.Distinct) (nodup : last.Nodup) :
    (bag.withLast last).Distinct := by
  show (bag.withLast last).names.Nodup
  rw [names_withLast]
  refine (distinct.filter _).append (nodup.filter _) ?_
  intro name kept moved
  exact of_decide_eq_true (List.mem_filter.mp kept).2 (List.mem_filter.mp moved).1

theorem get?_append {front back : List (String × String)} :
    (Attributes.mk (front ++ back)).get? name =
      ((Attributes.mk front).get? name).or ((Attributes.mk back).get? name) := by
  unfold get?
  rw [List.find?_append, Option.map_or]

/-- Without the entries of some names, the values of the others are found. -/
theorem get?_filter {entries : List (String × String)} :
    (Attributes.mk (entries.filter fun entry => entry.1 ∉ last)).get? name =
      if name ∈ last then none else (Attributes.mk entries).get? name := by
  induction entries with
  | nil => exact (ite_self none).symm
  | cons entry rest ih =>
    obtain ⟨key, held⟩ := entry
    rw [get?_cons]
    by_cases moved : key ∈ last
    · rw [List.filter_cons_of_neg (by simpa using moved), ih]
      by_cases here : key = name
      · rw [if_pos (here ▸ moved), if_pos (here ▸ moved)]
      · rw [if_neg here]
    · rw [List.filter_cons_of_pos (by simpa using moved), get?_cons, ih]
      by_cases here : key = name
      · rw [if_pos here, if_neg (here ▸ moved), if_pos here]
      · rw [if_neg here, if_neg here]

/-- Of entries that are made of names and their values, one has the value of its name. -/
theorem get?_filterMap {values : String → Option String} :
    (Attributes.mk (last.filterMap fun name => (values name).map fun value => (name, value))).get?
        name = if name ∈ last then values name else none := by
  induction last with
  | nil => rfl
  | cons key last ih =>
    rw [List.filterMap_cons]
    by_cases here : key = name
    · subst here
      rw [if_pos List.mem_cons_self]
      cases found : values key with
      | none =>
        rw [Option.map_none, ih, found, ite_self]
      | some held =>
        rw [Option.map_some, get?_cons, if_pos rfl]
    · have inside : name ∈ key :: last ↔ name ∈ last := by
        rw [List.mem_cons, or_iff_right (Ne.symm here)]
      rw [if_congr inside rfl rfl, ← ih]
      cases values key with
      | none => rfl
      | some held => exact get?_cons.trans (if_neg here)

/-- Nothing is lost when entries are moved. -/
theorem get?_withLast : (bag.withLast last).get? = bag.get? := by
  funext name
  refine get?_append.trans ?_
  rw [get?_filter, get?_filterMap]
  split
  · exact Option.none_or
  · exact Option.or_none

/-- Moving entries to the end changes nothing exactly if they stand there in that order. -/
theorem Distinct.withLast_eq_self_iff (distinct : bag.Distinct) (nodup : last.Nodup) :
    bag.withLast last = bag ↔ last.filter (· ∈ bag.names) <:+ bag.names := by
  constructor
  · intro same
    have named := congrArg names same
    rw [names_withLast] at named
    exact ⟨_, named⟩
  · rintro ⟨front, whole⟩
    have unique : bag.names.Nodup := distinct
    rw [← whole, List.nodup_append'] at unique
    have kept : bag.names.filter (· ∉ last) = front := by
      rw [← whole, List.filter_append, List.filter_eq_self.mpr, List.filter_eq_nil_iff.mpr,
        List.append_nil]
      · intro name listed
        simpa using (List.mem_filter.mp listed).1
      · intro name listed
        refine decide_eq_true fun moved => unique.2.2 listed (List.mem_filter.mpr ⟨moved, ?_⟩)
        exact decide_eq_true (whole ▸ List.mem_append_left _ listed)
    refine (distinct.withLast nodup).ext ?_ get?_withLast
    rw [names_withLast, kept, whole]

theorem filter_without {names : List String} :
    (names.filter (· ≠ name)).filter (· ∉ last) =
      names.filter (· ∉ last.filter (· ≠ name) ++ [name]) := by
  rw [List.filter_filter]
  refine List.filter_congr fun other _ => ?_
  by_cases same : other = name <;> simp [same]

/-- A name that has been taken out and is written back comes after all names that were moved to the
end meanwhile. -/
theorem Distinct.withLast_assign_none (distinct : bag.Distinct) (nodup : last.Nodup) :
    ((bag.assign name none).withLast last).assign name (bag.get? name) =
      bag.withLast (last.filter (· ≠ name) ++ [name]) := by
  have own : ((bag.assign name none).withLast last).Distinct := distinct.assign.withLast nodup
  refine own.assign.ext ?_ ((own.get?_assign_back get?_withLast).trans get?_withLast.symm)
  have outside : name ∉ ((bag.assign name none).withLast last).names := by
    rw [← get?_eq_none_iff, get?_withLast, distinct.get?_assign]
  have moved : last.filter (· ∈ bag.names.filter (· ≠ name)) =
      (last.filter (· ≠ name)).filter (· ∈ bag.names) := by
    rw [List.filter_filter]
    refine List.filter_congr fun other _ => ?_
    by_cases same : other = name <;> simp [same]
  have written : ((bag.get? name).toList.map fun _ => name) = [name].filter (· ∈ bag.names) := by
    cases found : bag.get? name with
    | none => simp [get?_eq_none_iff.mp found]
    | some text => simp [mem_names_iff.mpr ⟨text, found⟩]
  rw [names_assign_of_not_mem outside, names_withLast, names_withLast, distinct.names_assign_none,
    filter_without, moved, written, List.filter_append, List.append_assoc]

/-- A name that has been written takes nothing with it when the previous value is written back. -/
theorem Distinct.withLast_assign_some {text : String} (distinct : bag.Distinct)
    (nodup : last.Nodup) :
    ((bag.assign name (some text)).withLast last).assign name (bag.get? name) =
      bag.withLast last := by
  have own : ((bag.assign name (some text)).withLast last).Distinct :=
    distinct.assign.withLast nodup
  refine own.assign.ext ?_ ((own.get?_assign_back get?_withLast).trans get?_withLast.symm)
  have inside : name ∈ ((bag.assign name (some text)).withLast last).names := by
    rw [mem_names_iff, get?_withLast, distinct.get?_assign]
    exact ⟨text, rfl⟩
  cases found : bag.get? name with
  | none =>
    have missing := get?_eq_none_iff.mp found
    have kept : ((bag.names ++ [name]).filter (· ∉ last)).filter (· ≠ name) =
        bag.names.filter (· ∉ last) := by
      rw [List.filter_filter, List.filter_append, List.filter_cons_of_neg (by simp),
        List.filter_nil, List.append_nil]
      refine List.filter_congr fun other listed => ?_
      have different : other ≠ name := fun same => missing (same ▸ listed)
      simp [different]
    have moved : (last.filter (· ∈ bag.names ++ [name])).filter (· ≠ name) =
        last.filter (· ∈ bag.names) := by
      rw [List.filter_filter]
      refine List.filter_congr fun other _ => ?_
      by_cases same : other = name <;> simp [same, missing]
    rw [own.names_assign_none, names_withLast, names_withLast,
      names_assign_of_not_mem missing, Option.toList_some, List.map_singleton, List.filter_append,
      kept, moved]
  | some held =>
    have listed := mem_names_iff.mpr ⟨held, found⟩
    rw [names_assign_of_mem inside, names_withLast, names_withLast, names_assign_of_mem listed]

/-! ## Lists of changes of one bag -/

/-- The bag after changes have been carried out on it. -/
def rewritten (bag : Attributes) (changes : List Change) : Attributes :=
  changes.foldl (fun bag change => bag.assign change.name change.after) bag

/-- Every change of the list finds the value that it says was there. -/
def Fits (bag : Attributes) : List Change → Prop
  | [] => True
  | change :: changes =>
    bag.get? change.name = change.before ∧ (bag.assign change.name change.after).Fits changes

/-- **Taking changes back moves the names that they had taken out to the end.** -/
theorem Fits.rewritten_back (fits : bag.Fits changes) (distinct : bag.Distinct) :
    (bag.rewritten changes).rewritten (changes.reverse.map Change.back) =
      bag.withLast (Change.dropped changes) := by
  induction changes generalizing bag with
  | nil => exact (distinct.withLast_eq_self_iff List.nodup_nil).mpr (List.nil_suffix) |>.symm
  | cons change changes ih =>
    obtain ⟨node, name, before, after⟩ := change
    obtain ⟨found, rest⟩ := fits
    have unwound : ((bag.rewritten (⟨node, name, before, after⟩ :: changes)).rewritten
        ((⟨node, name, before, after⟩ :: changes).reverse.map Change.back)) =
          ((bag.assign name after).withLast (Change.dropped changes)).assign name before := by
      rw [← ih rest distinct.assign, List.reverse_cons, List.map_append]
      exact List.foldl_append
    have found : before = bag.get? name := found.symm
    rw [unwound, found]
    cases after with
    | none => exact distinct.withLast_assign_none (Change.nodup_dropped changes)
    | some text => exact distinct.withLast_assign_some (Change.nodup_dropped changes)

/-- Two bags with distinct names hold the same, and all names apart from some stand in the same
order. -/
structure SameBut (last : List String) (left right : Attributes) : Prop where
  left_distinct : left.Distinct
  right_distinct : right.Distinct
  values : left.get? = right.get?
  order : left.names.filter (· ∉ last) = right.names.filter (· ∉ last)

theorem Distinct.sameBut_withLast (distinct : bag.Distinct) (nodup : last.Nodup) :
    SameBut last (bag.withLast last) bag := by
  refine ⟨distinct.withLast nodup, distinct, get?_withLast, ?_⟩
  have moved : (last.filter (· ∈ bag.names)).filter (· ∉ last) = [] := by
    rw [List.filter_eq_nil_iff]
    intro name listed
    simpa using (List.mem_filter.mp listed).1
  rw [names_withLast, List.filter_append, List.filter_filter, moved, List.append_nil]
  simp

namespace SameBut

theorem get?_assign (same : SameBut last left right) :
    (left.assign name value).get? = (right.assign name value).get? := by
  funext other
  by_cases here : other = name
  · rw [here, same.left_distinct.get?_assign, same.right_distinct.get?_assign]
  · rw [get?_assign_of_ne here, get?_assign_of_ne here, same.values]

theorem assign_some {text : String} (same : SameBut last left right) :
    SameBut last (left.assign name (some text)) (right.assign name (some text)) := by
  refine ⟨same.left_distinct.assign, same.right_distinct.assign, same.get?_assign, ?_⟩
  have both : name ∈ left.names ↔ name ∈ right.names := by
    rw [mem_names_iff, mem_names_iff, same.values]
  by_cases inside : name ∈ left.names
  · rw [names_assign_of_mem inside, names_assign_of_mem (both.mp inside), same.order]
  · rw [names_assign_of_not_mem inside, names_assign_of_not_mem (mt both.mpr inside),
      List.filter_append, List.filter_append, same.order]

theorem assign_none (same : SameBut (last.filter (· ≠ name) ++ [name]) left right) :
    SameBut last (left.assign name none) (right.assign name none) := by
  refine ⟨same.left_distinct.assign, same.right_distinct.assign, same.get?_assign, ?_⟩
  rw [same.left_distinct.names_assign_none, same.right_distinct.names_assign_none,
    filter_without, filter_without, same.order]

/-- **Where the names that changes take out stand makes no difference to the changed bag.** -/
theorem rewritten_eq (same : SameBut (Change.dropped changes) left right) :
    left.rewritten changes = right.rewritten changes := by
  induction changes generalizing left right with
  | nil =>
    have order : left.names = right.names := by
      simpa [Change.dropped] using same.order
    exact same.left_distinct.ext order same.values
  | cons change changes ih =>
    obtain ⟨node, name, before, after⟩ := change
    cases after with
    | none => exact ih same.assign_none
    | some text => exact ih same.assign_some

end SameBut

end Attributes

namespace Form

variable {form after : Form} {id : NodeId} {ids : List NodeId} {changes : List Change}
  {plan : Field → List Assignment}

/-! ## Lists of changes of a form -/

/-- The form with the attributes that changes take out of a field at the end of its bag. -/
def reordered (form : Form) (changes : List Change) : Form :=
  { form with
    fields := form.fields.map fun id field =>
      { field with
        attributes := field.attributes.withLast (Change.dropped (Change.ofField id changes)) } }

theorem get?_reordered :
    (form.reordered changes).get? id =
      (form.get? id).map fun field =>
        { field with
          attributes := field.attributes.withLast (Change.dropped (Change.ofField id changes)) } :=
  Std.ExtTreeMap.getElem?_map

theorem root_rewritten : (form.rewritten changes).root = form.root := rewritten_links.1

theorem get?_rewritten :
    (form.rewritten changes).get? id =
      (form.get? id).map fun field =>
        { field with attributes := field.attributes.rewritten (Change.ofField id changes) } := by
  induction changes generalizing form with
  | nil => exact Option.map_id'.symm
  | cons change changes ih =>
    show ((form.assign change.node change.name change.after).rewritten changes).get? id = _
    rw [ih, get?_assign]
    by_cases here : change.node = id
    · subst here
      rw [if_pos rfl, Option.map_map, Change.ofField_cons_self]
      rfl
    · rw [if_neg (Ne.symm here), Change.ofField_cons_of_ne here]

theorem Traces.fits (traces : form.Traces .values changes) {field : Field}
    (stored : form.get? id = some field) :
    field.attributes.Fits (Change.ofField id changes) := by
  induction changes generalizing form field with
  | nil => trivial
  | cons change changes ih =>
    obtain ⟨⟨field', stored', holds⟩, rest⟩ := traces
    by_cases here : change.node = id
    · subst here
      cases stored.symm.trans stored'
      rw [Change.ofField_cons_self]
      have written : (form.assign change.node change.name change.after).get? change.node =
          some { field with attributes := field.attributes.assign change.name change.after } := by
        rw [get?_assign, if_pos rfl, stored]
        rfl
      exact ⟨(holds rfl).2, ih rest written⟩
    · rw [Change.ofField_cons_of_ne here]
      refine ih rest ?_
      rw [get?_assign, if_neg (Ne.symm here), stored]

/-- Taking changes back restores a form up to the place of the names that they had taken out. -/
theorem Traces.rewritten_back (traces : form.Traces .values changes)
    (legible : form.Legible .values) :
    (form.rewritten changes).rewritten (changes.reverse.map Change.back) =
      form.reordered changes := by
  refine ext_get? (root_rewritten.trans root_rewritten) ?_
  intro id
  have reversed : Change.ofField id (changes.reverse.map Change.back) =
      (Change.ofField id changes).reverse.map Change.back := by
    unfold Change.ofField
    rw [List.filter_map, List.filter_reverse]
    rfl
  rw [get?_rewritten, get?_rewritten, get?_reordered, Option.map_map, reversed]
  refine Option.map_congr fun field stored => ?_
  have back := (traces.fits stored).rewritten_back (legible rfl id field stored)
  simp only [Function.comp_apply, back]

/-- Carrying the changes out again leads to the form that they led to before. -/
theorem Legible.rewritten_reordered (legible : form.Legible .values) :
    (form.reordered changes).rewritten changes = form.rewritten changes := by
  have again : ((form.reordered changes).rewritten changes).root = form.root := root_rewritten
  refine ext_get? (again.trans root_rewritten.symm) ?_
  intro id
  rw [get?_rewritten, get?_rewritten, get?_reordered, Option.map_map]
  refine Option.map_congr fun field stored => ?_
  have moved := (legible rfl id field stored).sameBut_withLast
    (Change.nodup_dropped (Change.ofField id changes))
  simp only [Function.comp_apply, moved.rewritten_eq]

/-- Nothing is reordered exactly if in every bag the names that are taken out stand last, the one
that is taken out first at the very end. -/
theorem Legible.reordered_eq_iff (legible : form.Legible .values) :
    form.reordered changes = form ↔
      ∀ id field, form.get? id = some field →
        (Change.dropped (Change.ofField id changes)).filter (· ∈ field.attributes.names) <:+
          field.attributes.names := by
  have each : ∀ id field, form.get? id = some field →
      ((form.reordered changes).get? id = form.get? id ↔
        (Change.dropped (Change.ofField id changes)).filter (· ∈ field.attributes.names) <:+
          field.attributes.names) := by
    intro id field stored
    rw [← (legible rfl id field stored).withLast_eq_self_iff (Change.nodup_dropped _),
      get?_reordered, stored, Option.map_some, Option.some.injEq]
    exact ⟨congrArg Field.attributes, fun same => by rw [same]⟩
  constructor
  · intro same id field stored
    exact (each id field stored).mp (congrArg (fun form => form.get? id) same)
  · intro last
    refine ext_get? rfl ?_
    intro id
    cases stored : form.get? id with
    | none =>
      rw [get?_reordered, stored]
      rfl
    | some field => exact ((each id field stored).mpr (last id field stored)).trans stored

/-- Changes that take nothing out reorder nothing. -/
theorem Legible.reordered_of_written (legible : form.Legible .values)
    (written : ∀ change ∈ changes, change.after ≠ none) : form.reordered changes = form := by
  refine legible.reordered_eq_iff.mpr fun id field stored => ?_
  have kept : Change.dropped (Change.ofField id changes) = [] :=
    Change.dropped_eq_nil fun change listed => written change (List.mem_filter.mp listed).1
  rw [kept]
  exact List.nil_suffix

end Form

end FormEditor
