import FormEditor.Proofs.Form.Copies
import FormEditor.Proofs.Form.DocumentOrder

/-!
# Outlines of well-formed forms

In a well-formed form the outline of a field is the bag of the field with the outlines of its
children (`WellFormed.drawn_eq`): it goes down far enough to be cut off nowhere.  Planted again, it
grows into the fields at and below that field in document order, under new names
(`WellFormed.plant_drawn`).

Main statement: `WellFormed.get?_planted`.
-/

set_option autoImplicit false

namespace FormEditor

/-! ## New names -/

/-- A renaming gives the ids of a list the next names of a supply, in order. -/
def Supply.Names (supply : Supply) (rename : NodeId → NodeId) (ids : List NodeId) : Prop :=
  ids.map rename = (List.range' supply.next ids.length).map NodeId.mk

namespace Supply

variable {supply : Supply} {rename : NodeId → NodeId} {id : NodeId} {ids further : List NodeId}

theorem names_nil : supply.Names rename [] := rfl

theorem names_cons :
    supply.Names rename (id :: ids) ↔
      rename id = supply.id ∧ (supply.after 1).Names rename ids := by
  unfold Names
  rw [List.map_cons, List.length_cons, List.range'_succ, List.map_cons, List.cons_eq_cons]
  exact Iff.rfl

theorem names_append :
    supply.Names rename (ids ++ further) ↔
      supply.Names rename ids ∧ (supply.after ids.length).Names rename further := by
  induction ids generalizing supply with
  | nil => exact (and_iff_right names_nil).symm
  | cons id ids ih =>
    have count : (supply.after 1).after ids.length = supply.after (id :: ids).length := by
      unfold Supply.after
      rw [List.length_cons, Nat.add_assoc, Nat.add_comm 1]
    rw [List.cons_append, names_cons, names_cons, ih, count, and_assoc]

/-- A list without repetitions can be given names from any supply. -/
theorem exists_names (supply : Supply) (distinct : ids.Nodup) :
    ∃ rename, supply.Names rename ids := by
  refine ⟨fun id => ⟨supply.next + ids.idxOf id⟩, List.ext_getElem (by simp) ?_⟩
  intro index inside _
  rw [List.length_map] at inside
  rw [List.getElem_map, List.getElem_map, List.getElem_range', distinct.idxOf_getElem index inside,
    Nat.one_mul]

end Supply

/-- A field under a new name, without its highlight.  Its children have new names too; the parent
is given for each field, since the topmost one gets another. -/
def Field.renamed (rename : NodeId → NodeId) (above : Field → Option NodeId) (field : Field) :
    Field where
  id := rename field.id
  parent := above field
  children := field.children.map rename
  attributes := field.attributes
  highlighted := false

/-- The parent of a field under its new name; the topmost field gets the one that is given. -/
def Field.newParent (rename : NodeId → NodeId) (id : NodeId) (top : Option NodeId) (field : Field) :
    Option NodeId :=
  if field.id = id then top else field.parent.map rename

namespace Form

variable {form : Form} {id key : NodeId} {field : Field} {supply : Supply}
  {rename : NodeId → NodeId} {above : Field → Option NodeId}

/-! ## Outlines of fields -/

/-- The outline of a stored field. -/
def drawn (form : Form) (id : NodeId) : Outline :=
  (form.fields.outlineFrom form.size id).getD default

/-- Where links agree, an outline that goes as deep as there are fields does not change when it
goes deeper. -/
theorem LinksFit.outlineFrom_succ (fits : form.LinksFit) {depth : Nat} {line : List NodeId}
    (lineage : form.Lineage id line) (stored : form.contains id)
    (enough : form.size < depth + line.length) :
    form.fields.outlineFrom (depth + 1) id = form.fields.outlineFrom depth id := by
  induction depth generalizing id line with
  | zero =>
    have short := lineage.length_le fits stored
    omega
  | succ depth ih =>
    obtain ⟨field, found⟩ := contains_iff.mp stored
    have here : form.fields[id]? = some field := found
    rw [FieldMap.outlineFrom, FieldMap.outlineFrom, here, Option.map_some, Option.map_some]
    refine congrArg (fun children => some (Outline.node field.attributes children)) ?_
    refine List.filterMap_congr fun child listed => ?_
    rw [← children_of_get? found] at listed
    have above := fits.parent?_eq listed
    refine ih (.step above lineage) (contains_of_parent? above) ?_
    rw [List.length_cons]
    omega

theorem outlineFrom_size (stored : form.contains id) :
    form.fields.outlineFrom form.size id = some (form.drawn id) := by
  obtain ⟨outline, found⟩ : ∃ outline, FieldMap.outline form.fields id = .ok outline :=
    FieldMap.exists_outline stored
  unfold FieldMap.outline at found
  unfold drawn size
  split at found
  · rename_i grown
    rw [grown]
    rfl
  · cases found

theorem outline_eq (stored : form.contains id) :
    FieldMap.outline form.fields id = .ok (form.drawn id) := by
  have found : form.fields.outlineFrom form.fields.size id = some (form.drawn id) :=
    outlineFrom_size stored
  unfold FieldMap.outline
  rw [found]

/-- Below a field, the parents are renamed as well. -/
def Lifted (form : Form) (rename : NodeId → NodeId) (above : Field → Option NodeId)
    (id : NodeId) : Prop :=
  ∀ {key : NodeId} {field : Field}, form.Beneath id key → form.get? key = some field →
    above field = field.parent.map rename

namespace WellFormed

variable (wellFormed : form.WellFormed)
include wellFormed

/-- The outline of a field is its bag with the outlines of its children. -/
theorem drawn_eq (found : form.get? id = some field) :
    form.drawn id = .node field.attributes (field.children.map form.drawn) := by
  have stored := contains_of_get? found
  obtain ⟨line, lineage⟩ := (wellFormed.reached stored).exists_lineage wellFormed.root_top
  have deeper := wellFormed.outlineFrom_succ lineage stored (Nat.lt_add_of_pos_right lineage.pos)
  have here : form.fields[id]? = some field := found
  have below : field.children.filterMap (form.fields.outlineFrom form.size) =
      field.children.map form.drawn := by
    rw [← List.filterMap_eq_map]
    refine List.filterMap_congr fun child listed => ?_
    rw [← children_of_get? found] at listed
    exact outlineFrom_size (wellFormed.contains_child listed)
  rw [outlineFrom_size stored, FieldMap.outlineFrom, here, Option.map_some, below] at deeper
  exact (Option.some.inj deeper).symm

/-- An outline has as many fields as the form has at and below its field. -/
theorem size_drawn (stored : form.contains id) : (form.drawn id).size = (form.span id).length := by
  refine wellFormed.descend (motive := fun id => (form.drawn id).size = (form.span id).length)
    stored fun id stored ih => ?_
  obtain ⟨field, found⟩ := contains_iff.mp stored
  have total : ∀ children ⊆ form.children id,
      Outline.totalSize (children.map form.drawn) = (children.flatMap form.span).length := by
    intro children
    induction children with
    | nil => exact fun _ => rfl
    | cons child children rest =>
      intro below
      obtain ⟨listed, below⟩ := List.cons_subset.mp below
      rw [List.map_cons, Outline.totalSize, ih child listed, rest below, List.flatMap_cons,
        List.length_append]
  rw [wellFormed.drawn_eq found, Outline.size, wellFormed.span_eq stored, List.length_cons,
    ← children_of_get? found, total _ (List.Subset.refl _), Nat.add_comm]

/-! ## Planting them again -/

/-- Outlines that are planted one after the other, if each grows into the fields that it was drawn
from. -/
theorem plantAll_drawn {parent : NodeId} {children : List NodeId}
    (stored : ∀ child ∈ children, form.contains child)
    (each : ∀ child ∈ children, ∀ {supply : Supply}, supply.Names rename (form.span child) →
      (form.drawn child).plant (some parent) supply =
        (form.descendants child).map (Field.renamed rename above))
    (named : supply.Names rename (children.flatMap form.span)) :
    Outline.rootIds supply (children.map form.drawn) = children.map rename ∧
      Outline.plantAll parent supply (children.map form.drawn) =
        (children.flatMap form.descendants).map (Field.renamed rename above) := by
  induction children generalizing supply with
  | nil => exact ⟨rfl, rfl⟩
  | cons child children ih =>
    obtain ⟨here, others⟩ := List.forall_mem_cons.mp stored
    obtain ⟨first, rest⟩ := List.forall_mem_cons.mp each
    rw [List.flatMap_cons, Supply.names_append] at named
    obtain ⟨roots, planted⟩ := ih others rest named.2
    have head := named.1
    rw [wellFormed.span_eq here, Supply.names_cons] at head
    rw [List.map_cons, Outline.rootIds, Outline.plantAll, wellFormed.size_drawn here, roots,
      planted, first named.1, List.map_cons, head.1, List.flatMap_cons, List.map_append]
    exact ⟨rfl, rfl⟩

/-- **An outline that is planted grows into the fields that it was drawn from**, in document order
and under new names. -/
theorem plant_drawn (stored : form.contains id) (named : supply.Names rename (form.span id))
    (lifted : form.Lifted rename above id) :
    (form.drawn id).plant ((form.get? id).bind above) supply =
      (form.descendants id).map (Field.renamed rename above) := by
  refine wellFormed.descend (motive := fun id => ∀ {supply : Supply},
    supply.Names rename (form.span id) → form.Lifted rename above id →
    (form.drawn id).plant ((form.get? id).bind above) supply =
      (form.descendants id).map (Field.renamed rename above))
    stored (fun id stored ih supply named lifted => ?_) named lifted
  obtain ⟨field, found⟩ := contains_iff.mp stored
  rw [wellFormed.span_eq stored, Supply.names_cons] at named
  have each : ∀ child ∈ form.children id, ∀ {supply : Supply},
      supply.Names rename (form.span child) →
      (form.drawn child).plant (some (rename id)) supply =
        (form.descendants child).map (Field.renamed rename above) := by
    intro child listed supply named
    have above' := wellFormed.parent?_eq listed
    obtain ⟨lower, below⟩ := contains_iff.mp (wellFormed.contains_child listed)
    have raised : above lower = some (rename id) := by
      rw [lifted (.of_under_parent above' .here) below, ← parent?_of_get? below, above',
        Option.map_some]
    have grown := ih child listed named fun beneath =>
      lifted ((Beneath.of_under_parent above' .here).trans_under beneath.under)
    rwa [below, Option.bind_some, raised] at grown
  obtain ⟨roots, planted⟩ :=
    wellFormed.plantAll_drawn (fun _ listed => wellFormed.contains_child listed) each named.2
  rw [children_of_get? found] at roots planted
  rw [found, Option.bind_some, wellFormed.drawn_eq found, wellFormed.descendants_eq found,
    List.map_cons, Outline.plant, ← named.1, planted, roots]
  unfold Field.renamed
  rw [wellFormed.own_id found]
  rfl

theorem lifted_newParent (top : Option NodeId) :
    form.Lifted rename (Field.newParent rename id top) id := by
  intro key field beneath found
  rw [Field.newParent, wellFormed.own_id found, if_neg (wellFormed.ne_of_beneath beneath)]

/-- **A planted outline has each field that it was drawn from**, under its new name; only the
topmost one is without a parent. -/
theorem get?_planted (stored : form.contains id) (named : supply.Names rename (form.span id))
    (under : form.Under id key) (found : form.get? key = some field) :
    (Branch.ofOutline supply (form.drawn id)).toForm.get? (rename key) =
      some (field.renamed rename (Field.newParent rename id none)) := by
  have each : (form.drawn id).Each fun _ => True :=
    FieldMap.each_outline (fun _ _ _ => trivial) (outline_eq stored)
  obtain ⟨top, topFound⟩ := contains_iff.mp stored
  have grown := wellFormed.plant_drawn stored named (wellFormed.lifted_newParent none)
  rw [topFound, Option.bind_some, Field.newParent, if_pos (wellFormed.own_id topFound)] at grown
  obtain rfl := wellFormed.own_id found
  refine (Outline.planted_plant none supply _ each).getElem?_eq_some_iff.mpr ⟨?_, rfl⟩
  rw [grown]
  exact List.mem_map_of_mem (wellFormed.mem_descendants.mpr ⟨found, under⟩)

end WellFormed

end Form

end FormEditor
