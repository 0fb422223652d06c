import FormEditor.Proofs.Form.Calls
import FormEditor.Proofs.Form.DocumentOrder

/-!
# Moving one field

A field is moved with all that lies below it.  It leaves the child list in which it stood, enters a
list at an index that counts the other children there, and names its new parent.  That list may be
the one that it has left.  `Form.moved` gives the new form for both cases at once, since every list
is first rid of the field.

Main statement: a field is moved exactly if it can be (`Form.Movable`), and then nothing changes but
its place (`Form.MovedTo`); a move that is refused changes nothing (`relinking_law`).
-/

set_option autoImplicit false

namespace FormEditor.Form

variable {form after : Form} {id key top : NodeId} {place target : Position} {field : Field}

/-- The form in which a field has come to a place, with an index that counts the other children. -/
def moved (form : Form) (id : NodeId) (target : Position) : Form :=
  { form with
    fields := form.fields.map fun key field =>
      { field with
        parent := if key = id then some target.parent else field.parent
        children :=
          if key = target.parent then
            (field.children.filter (· ≠ id)).insertIdx target.index id
          else field.children.filter (· ≠ id) } }

theorem get?_moved :
    (form.moved id target).get? key =
      (form.get? key).map fun field =>
        { field with
          parent := if key = id then some target.parent else field.parent
          children :=
            if key = target.parent then
              (field.children.filter (· ≠ id)).insertIdx target.index id
            else field.children.filter (· ≠ id) } := by
  show (Std.ExtTreeMap.map _ form.fields)[key]? = _
  rw [Std.ExtTreeMap.getElem?_map]
  rfl

@[simp] theorem contains_moved : (form.moved id target).contains key = form.contains key := by
  unfold contains
  rw [get?_moved, Option.isSome_map]

theorem parent?_moved (stored : form.contains id) :
    (form.moved id target).parent? key =
      if key = id then some target.parent else form.parent? key := by
  unfold parent?
  rw [get?_moved]
  cases found : form.get? key with
  | none =>
    have different : key ≠ id := fun same => not_contains_iff.mpr found (same ▸ stored)
    rw [if_neg different]
    rfl
  | some field => rfl

theorem children_moved (stored : form.contains target.parent) :
    (form.moved id target).children key =
      if key = target.parent then ((form.children key).filter (· ≠ id)).insertIdx target.index id
      else (form.children key).filter (· ≠ id) := by
  unfold children
  rw [get?_moved]
  cases found : form.get? key with
  | none =>
    have different : key ≠ target.parent := fun same => not_contains_iff.mpr found (same ▸ stored)
    rw [if_neg different]
    rfl
  | some field => rfl

/-! ## One list without the field -/

/-- A list that the field enters has the other children as before. -/
theorem filter_insertIdx_self {ids : List NodeId} {index : Nat} :
    (ids.insertIdx index id).filter (· ≠ id) = ids.filter (· ≠ id) := by
  induction ids generalizing index with
  | nil => cases index <;> simp
  | cons first ids ih =>
    cases index with
    | zero => simp
    | succ index => rw [List.insertIdx_succ_cons, List.filter_cons, List.filter_cons, ih]

namespace LinksFit

variable (fits : form.LinksFit)
include fits

/-- A field that is not the parent lists the same without the child. -/
theorem filter_children (elsewhere : form.parent? id ≠ some key) :
    (form.children key).filter (· ≠ id) = form.children key := by
  refine List.filter_eq_self.mpr fun child listed => decide_eq_true fun same => ?_
  exact elsewhere (same ▸ fits.parent?_eq listed)

/-- Taking the child out at its index leaves the list without it. -/
theorem eraseIdx_children (stands : form.StandsAt id place) :
    (form.children place.parent).eraseIdx place.index =
      (form.children place.parent).filter (· ≠ id) := by
  obtain ⟨inside, rfl⟩ := List.getElem?_eq_some_iff.mp stands
  have distinct := fits.nodup place.parent
  rw [← distinct.erase_getElem place.index inside, distinct.erase_eq_filter]
  exact List.filter_congr fun child _ => by simp [bne, beq_eq_decide]

/-- The room that a move has counts the other children of the new parent. -/
theorem length_filter_children (stands : form.StandsAt id place) :
    ((form.children key).filter (· ≠ id)).length =
      if key = place.parent then (form.children key).length - 1
      else (form.children key).length := by
  split
  · rename_i here
    rw [here, ← fits.eraseIdx_children stands,
      List.length_eraseIdx_of_lt (List.getElem?_eq_some_iff.mp stands).1]
  · rename_i elsewhere
    rw [fits.filter_children]
    rw [fits.parent?_of_standsAt stands]
    exact fun same => elsewhere (Option.some.inj same).symm

/-- Only the parent lists the child, so that taking it out there rids every list of it. -/
theorem get?_unlisted_of_standsAt (stands : form.StandsAt id place) :
    (form.unlisted place).get? key =
      (form.get? key).map fun field =>
        { field with children := field.children.filter (· ≠ id) } := by
  rw [get?_unlisted]
  cases found : form.get? key with
  | none => exact ite_self none
  | some field =>
    have children := children_of_get? found
    split
    · rename_i here
      subst here
      rw [Option.map_some, Option.map_some, ← children, fits.eraseIdx_children stands]
    · rename_i elsewhere
      have kept : (form.children key).filter (· ≠ id) = form.children key :=
        fits.filter_children fun above =>
          elsewhere (Option.some.inj (above.symm.trans (fits.parent?_of_standsAt stands)))
      rw [Option.map_some, ← children, kept, children]

theorem relinked_eq_moved (stands : form.StandsAt id place) :
    form.relinked id place target.parent target.index = form.moved id target := by
  refine ext_get? rfl fun key => ?_
  unfold relinked
  rw [get?_modifyField, get?_modifyField, fits.get?_unlisted_of_standsAt stands, get?_moved]
  cases form.get? key with
  | none => simp
  | some field =>
    rw [Option.map_some, Option.map_some]
    split <;> split <;> rfl

end LinksFit

/-! ## When a field can be moved -/

/-- A field can be moved to a place: it is in the form and is not the root, the new parent is in the
form and is not met on the walk down from the field, and the index counts no more children than the
new parent has besides. -/
structure Movable (form : Form) (id : NodeId) (target : Position) : Prop where
  stored : form.contains id
  inner : id ≠ form.root
  target_stored : form.contains target.parent
  free : target.parent ∉ form.span id
  room : target.index ≤ ((form.children target.parent).filter (· ≠ id)).length

namespace WellFormed

variable (wellFormed : form.WellFormed)
include wellFormed

theorem not_under_of_movable (movable : form.Movable id target) : ¬ form.Under id target.parent :=
  fun under => movable.free (wellFormed.mem_descendants_ids.mpr ⟨movable.target_stored, under⟩)

/-- A field is moved exactly if it can be, and where it goes is settled. -/
theorem relink_eq_ok_iff (target : Position) :
    relink id target.parent target.index form = .ok () after ↔
      form.Movable id target ∧ after = form.moved id target := by
  have fits := wellFormed.toLinksFit
  constructor
  · intro done
    obtain ⟨place, asked, rfl⟩ := Edit.ask_modify_eq_ok_iff.mp done
    obtain ⟨stands, stored, free, room⟩ := wellFormed.of_relinkable asked
    have above := wellFormed.parent?_of_standsAt stands
    refine ⟨⟨contains_of_parent? above, wellFormed.ne_root above, stored, fun listed => ?_, ?_⟩,
      fits.relinked_eq_moved stands⟩
    · exact free (wellFormed.mem_descendants_ids.mp listed).2
    · rw [fits.length_filter_children stands]
      exact room
  · rintro ⟨movable, rfl⟩
    obtain ⟨place, stands⟩ := wellFormed.exists_standsAt movable.stored movable.inner
    have room := movable.room
    rw [fits.length_filter_children stands] at room
    rw [wellFormed.relink_eq stands movable.target_stored (wellFormed.not_under_of_movable movable)
      room, fits.relinked_eq_moved stands]

/-- What the walk downwards meets depends only on the fields at and below its start. -/
theorem descendants_congr (wellFormed' : after.WellFormed) (stored : form.contains top)
    (same : ∀ key, form.Under top key → after.get? key = form.get? key) :
    after.descendants top = form.descendants top := by
  refine wellFormed.descend (motive := fun top =>
    (∀ key, form.Under top key → after.get? key = form.get? key) →
      after.descendants top = form.descendants top) stored (fun top stored ih same => ?_) same
  obtain ⟨field, found⟩ := contains_iff.mp stored
  rw [wellFormed.descendants_eq found, wellFormed'.descendants_eq ((same top .here).trans found)]
  refine congrArg (field :: ·) (List.flatMap_congr fun child listed => ?_)
  rw [← children_of_get? found] at listed
  exact ih child listed fun key under =>
    same key ((Under.of_parent (wellFormed.parent?_eq listed)).trans under)

/-- A field below the one that is moved stays as it is. -/
theorem get?_moved_of_beneath (movable : form.Movable id target) (beneath : form.Beneath id key) :
    (form.moved id target).get? key = form.get? key := by
  rw [get?_moved]
  cases found : form.get? key with
  | none => rfl
  | some field =>
    have notParent : key ≠ target.parent := fun same =>
      wellFormed.not_under_of_movable movable (same ▸ beneath.under)
    have list : field.children.filter (· ≠ id) = field.children := by
      rw [← children_of_get? found]
      exact wellFormed.filter_children fun above =>
        wellFormed.not_beneath_self (beneath.trans_under (.of_parent above))
    simp only [Option.map_some, if_neg (wellFormed.ne_of_beneath beneath), if_neg notParent, list]

/-- The field itself only names another parent. -/
theorem get?_moved_self (movable : form.Movable id target) :
    (form.moved id target).get? id =
      (form.get? id).map fun field => { field with parent := some target.parent } := by
  rw [get?_moved]
  cases found : form.get? id with
  | none => rfl
  | some field =>
    have notParent : id ≠ target.parent := fun same =>
      wellFormed.not_under_of_movable movable (same ▸ .here)
    have list : field.children.filter (· ≠ id) = field.children := by
      rw [← children_of_get? found]
      exact wellFormed.filter_children fun above => wellFormed.ne_parent above rfl
    simp only [Option.map_some, if_true, if_neg notParent, list]

theorem wellFormed_moved (movable : form.Movable id target) :
    (form.moved id target).WellFormed :=
  keeps_relink.of_ok wellFormed ((wellFormed.relink_eq_ok_iff target).mpr ⟨movable, rfl⟩)

/-- What lies below the field goes with it. -/
theorem descendants_moved (movable : form.Movable id target) :
    (form.moved id target).descendants id =
      (form.descendants id).modifyHead fun field =>
        { field with parent := some target.parent } := by
  obtain ⟨field, found⟩ := contains_iff.mp movable.stored
  have grown := wellFormed.wellFormed_moved movable
  have here := wellFormed.get?_moved_self movable
  rw [found] at here
  rw [wellFormed.descendants_eq found, grown.descendants_eq here, List.modifyHead_cons]
  refine congrArg _ (List.flatMap_congr fun child listed => ?_)
  have listed : child ∈ form.children id := children_of_get? found ▸ listed
  exact wellFormed.descendants_congr grown (wellFormed.contains_child listed) fun key under =>
    wellFormed.get?_moved_of_beneath movable
      (Beneath.trans_under ⟨id, wellFormed.parent?_eq listed, .here⟩ under)

end WellFormed

/-! ## The law -/

/-- Nothing but the place of one field differs from the form before.  All child lists keep the order
of the other children (`order`), and those of other fields than its two parents are the same
(`lists`); the field names its new parent and all others name the parents that they named
(`parents`); attributes and highlights are the same (`content`), and what lies below the field is in
every respect (`below`). -/
structure MovedTo (form : Form) (id : NodeId) (target : Position) (after : Form) : Prop where
  valid : after.validate = .ok ()
  root : after.root = form.root
  stored : ∀ key, after.contains key = form.contains key
  place : (after.children target.parent)[target.index]? = some id
  order : ∀ key, (after.children key).filter (· ≠ id) = (form.children key).filter (· ≠ id)
  lists : ∀ key, key ≠ target.parent → form.parent? id ≠ some key →
    after.children key = form.children key
  parents : ∀ key, after.parent? key = if key = id then some target.parent else form.parent? key
  content : ∀ key,
    (after.get? key).map (fun field => (field.id, field.attributes, field.highlighted)) =
      (form.get? key).map fun field => (field.id, field.attributes, field.highlighted)
  below : after.descendants id =
    (form.descendants id).modifyHead fun field => { field with parent := some target.parent }

theorem WellFormed.movedTo (wellFormed : form.WellFormed) (movable : form.Movable id target) :
    form.MovedTo id target (form.moved id target) where
  valid := validate_eq_ok_iff.mpr (wellFormed.wellFormed_moved movable)
  root := rfl
  stored := fun _ => contains_moved
  place := by
    rw [children_moved movable.target_stored, if_pos rfl, List.getElem?_insertIdx_self,
      if_pos movable.room]
  order := fun key => by
    rw [children_moved movable.target_stored]
    split
    · rw [filter_insertIdx_self, List.filter_filter]
      simp only [Bool.and_self]
    · rw [List.filter_filter]
      simp only [Bool.and_self]
  lists := fun key notTarget notSource => by
    rw [children_moved movable.target_stored, if_neg notTarget,
      wellFormed.filter_children notSource]
  parents := fun _ => parent?_moved movable.stored
  content := fun key => by
    rw [get?_moved, Option.map_map]
    rfl
  below := wellFormed.descendants_moved movable

/-- **A field is moved with all that lies below it, and nothing else changes.**  In a valid form a
field can be moved to a place exactly if it is in the form and is not the root, the new parent is in
the form and not at or below the field, and the index is at most the number of other children there.
Then the field stands at that place, and nothing changes but the parent that it names and the two
child lists, which keep the order of all others.  Otherwise the move is refused and the form stays
as it is.  A parent has a child to be taken from their number whenever the field is one of them. -/
theorem relinking_law (valid : form.validate = .ok ()) (id parent : NodeId) (index : Nat) :
    ((∃ after, relink id parent index form = .ok () after) ↔ form.Movable id ⟨parent, index⟩) ∧
    (∀ after, relink id parent index form = .ok () after →
      form.MovedTo id ⟨parent, index⟩ after) ∧
    (¬ form.Movable id ⟨parent, index⟩ → ∃ fault, relink id parent index form = .error fault form) ∧
    (form.parent? id = some parent → 0 < (form.children parent).length) := by
  have wellFormed := validate_eq_ok_iff.mp valid
  have outcome : ∀ after, relink id parent index form = .ok () after ↔
      form.Movable id ⟨parent, index⟩ ∧ after = form.moved id ⟨parent, index⟩ :=
    fun after => wellFormed.relink_eq_ok_iff ⟨parent, index⟩
  refine ⟨⟨?_, ?_⟩, fun after done => ?_, fun blocked => ?_, fun above => ?_⟩
  · rintro ⟨after, done⟩
    exact ((outcome after).mp done).1
  · intro movable
    exact ⟨_, (outcome _).mpr ⟨movable, rfl⟩⟩
  · obtain ⟨movable, rfl⟩ := (outcome after).mp done
    exact wellFormed.movedTo movable
  · cases done : relink id parent index form with
    | ok _ after => exact absurd ((outcome after).mp done).1 blocked
    | error fault after =>
      cases Edit.eq_of_ask_modify_eq_error done
      exact ⟨fault, rfl⟩
  · exact List.length_pos_of_mem (wellFormed.mem_children above)

/-- The first of two siblings passes the other one, and no further; the sibling goes below it with
what it lists; and it cannot go below what it lists itself. -/
theorem relinking_law_siblings :
    let form := (Branch.ofOutline ⟨10⟩ (.node .empty
      [.node .empty [.node .empty []], .node .empty [.node .empty []]])).toForm
    form.validate = .ok () ∧
    (∃ after, relink ⟨11⟩ ⟨10⟩ 1 form = .ok () after ∧ form.MovedTo ⟨11⟩ ⟨⟨10⟩, 1⟩ after) ∧
    (∃ fault, relink ⟨11⟩ ⟨10⟩ 2 form = .error fault form) ∧
    (∃ after, relink ⟨13⟩ ⟨11⟩ 0 form = .ok () after ∧ form.MovedTo ⟨13⟩ ⟨⟨11⟩, 0⟩ after) ∧
    ∃ fault, relink ⟨13⟩ ⟨14⟩ 0 form = .error fault form := by
  intro form
  have valid : form.validate = .ok () := by decide +kernel
  have goes (id parent : NodeId) (index : Nat) (movable : form.Movable id ⟨parent, index⟩) :
      ∃ after, relink id parent index form = .ok () after ∧
        form.MovedTo id ⟨parent, index⟩ after := by
    obtain ⟨can, result, -⟩ := relinking_law valid id parent index
    obtain ⟨after, done⟩ := can.mpr movable
    exact ⟨after, done, result after done⟩
  have stays (id parent : NodeId) (index : Nat) (blocked : ¬ form.Movable id ⟨parent, index⟩) :
      ∃ fault, relink id parent index form = .error fault form :=
    (relinking_law valid id parent index).2.2.1 blocked
  refine ⟨valid, goes _ _ _ ?_, stays _ _ _ fun movable => ?_, goes _ _ _ ?_,
    stays _ _ _ fun movable => ?_⟩
  · exact ⟨by decide +kernel, by decide +kernel, by decide +kernel, by decide +kernel,
      by decide +kernel⟩
  · exact absurd movable.room (by decide +kernel)
  · exact ⟨by decide +kernel, by decide +kernel, by decide +kernel, by decide +kernel,
      by decide +kernel⟩
  · exact movable.free (by decide +kernel)

end FormEditor.Form
