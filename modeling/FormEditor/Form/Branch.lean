import FormEditor.Form.Walk

/-!
# Branches

A branch is what lies at and below a field, outside of any form: something that has been
taken out of a form, a field that has never been in one, or a copy.

A copy goes by way of an `Outline`, the bare shape of a branch with its attributes.  Planting an
outline gives every field a fresh id, numbered in document order, and no highlight.
-/

set_option autoImplicit false

namespace FormEditor

/-- A field with all that lies below it, outside of any form. -/
structure Branch where
  root : NodeId
  fields : FieldMap
deriving DecidableEq

/-- The shape of a branch and its attributes, without ids. -/
inductive Outline where
  | node (attributes : Attributes) (children : List Outline)
deriving Repr, Inhabited

/-! ## Outlines -/

namespace Outline

mutual
/-- The number of fields in an outline. -/
def size : Outline → Nat
  | .node _ children => 1 + totalSize children

/-- The number of fields in several outlines. -/
def totalSize : List Outline → Nat
  | [] => 0
  | outline :: outlines => size outline + totalSize outlines
end

/-- The ids of the roots of several outlines that are planted one after the other. -/
def rootIds (supply : Supply) : List Outline → List NodeId
  | [] => []
  | outline :: outlines => supply.id :: rootIds (supply.after outline.size) outlines

mutual
/-- The fields of an outline in document order, with ids from the supply. -/
def plant (parent : Option NodeId) (supply : Supply) : Outline → List Field
  | .node attributes children =>
    { Field.fresh supply.id attributes with
      parent, children := rootIds (supply.after 1) children } ::
      plantAll supply.id (supply.after 1) children

/-- The fields of several outlines under one parent, in document order. -/
def plantAll (parent : NodeId) (supply : Supply) : List Outline → List Field
  | [] => []
  | outline :: outlines =>
    plant (some parent) supply outline ++
      plantAll parent (supply.after outline.size) outlines
end

end Outline

namespace FieldMap

/-- The outline of what lies at and below `id`, `depth` levels down. -/
def outlineFrom (fields : FieldMap) : Nat → NodeId → Option Outline
  | 0, _ => none
  | depth + 1, id =>
    fields[id]?.map fun field =>
      .node field.attributes (field.children.filterMap (outlineFrom fields depth))

/-- The outline of what lies at and below `id`. -/
def outline (fields : FieldMap) (id : NodeId) : Except Fault Outline :=
  match outlineFrom fields fields.size id with
  | some outline => .ok outline
  | none => .error (.nodeNotFound id)

/-- Stores fields under their own ids. -/
def ofFields (fields : List Field) : FieldMap :=
  fields.foldl (fun stored field => stored.insert field.id field) ∅

end FieldMap

/-! ## Branches -/

namespace Branch

/-- The branch of a single field; its links are dropped. -/
def single (field : Field) : Branch :=
  { root := field.id
    fields := (∅ : FieldMap).insert field.id { field with parent := none, children := [] } }

/-- The branch that an outline grows into with fresh ids. -/
def ofOutline (supply : Supply) (outline : Outline) : Branch :=
  { root := supply.id, fields := FieldMap.ofFields (outline.plant none supply) }

/-- The number of fields in the branch. -/
def size (branch : Branch) : Nat := branch.fields.size

/-- The fields of the branch in document order. -/
def preorder (branch : Branch) : List Field := FieldMap.preorder branch.fields branch.root

/-- Takes the named attributes out of every field of the branch. -/
def strip (branch : Branch) (names : List String) : Branch :=
  { branch with
    fields := branch.fields.map fun _ field =>
      { field with attributes := field.attributes.removeAll names } }

end Branch

namespace FieldMap

/-- A copy of what lies at and below `id`, with fresh ids, and the supply that is left. -/
def copy (fields : FieldMap) (id : NodeId) (supply : Supply) : Except Fault (Branch × Supply) :=
  (outline fields id).map fun outline =>
    (Branch.ofOutline supply outline, supply.after outline.size)

/-- Copies of several branches, in order. -/
def copyAll (fields : FieldMap) : List NodeId → Supply → Except Fault (List Branch × Supply)
  | [], supply => .ok ([], supply)
  | id :: ids, supply => do
    let (branch, supply) ← copy fields id supply
    let (branches, supply) ← copyAll fields ids supply
    return (branch :: branches, supply)

end FieldMap

end FormEditor
