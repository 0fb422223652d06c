import FormEditor.Form.Basic

/-!
# Walks through a form

The two walks that follow links: upwards from a field to its ancestors, nearest first, and
downwards through all that lies below a field, in document order.

In a form whose links fit together a chain of parents cannot be longer than the form has
fields, and neither can a chain of children.  The walks therefore go no further than that,
which makes them total on any links at all.
-/

set_option autoImplicit false

namespace FormEditor

namespace FieldMap

/-- The fields met on a walk down from `id` in document order: a field comes before what lies
below it, and children come in their order.  The walk goes `depth` levels down and passes over
ids that are not stored. -/
def preorderFrom (fields : FieldMap) : Nat → NodeId → List Field
  | 0, _ => []
  | depth + 1, id =>
    match fields[id]? with
    | none => []
    | some field => field :: field.children.flatMap (preorderFrom fields depth)

/-- The fields at and below `id` in document order. -/
def preorder (fields : FieldMap) (id : NodeId) : List Field :=
  preorderFrom fields fields.size id

end FieldMap

namespace Form

/-- Follows parent links upwards from `next`, for at most the given number of steps. -/
def ancestorsFrom (form : Form) : Nat → Option NodeId → List NodeId
  | 0, _ => []
  | _ + 1, none => []
  | steps + 1, some id => id :: ancestorsFrom form steps (form.parent? id)

/-- The ancestors of a field, nearest first. -/
def ancestors (form : Form) (id : NodeId) : List NodeId :=
  form.ancestorsFrom (form.size + 1) (form.parent? id)

/-- Whether `ancestor` lies strictly above `id`. -/
def isAncestor (form : Form) (ancestor id : NodeId) : Bool :=
  (form.ancestors id).contains ancestor

/-- The fields at and below `id` in document order. -/
def descendants (form : Form) (id : NodeId) : List Field :=
  FieldMap.preorder form.fields id

/-- All fields in document order. -/
def preorder (form : Form) : List Field := form.descendants form.root

end Form

end FormEditor
