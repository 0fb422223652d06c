import FormEditor.Form.Locks
import FormEditor.Proofs.Form.Plans
import FormEditor.Proofs.Undoing

/-!
# Clearing and unlocking

Taking a name out of a bag takes one entry out.  A form that is read from a file may have bags in
which a name is repeated, and then a further entry comes to light.  So clearing the values of
fields, which meets every field once, leaves a value in a field that had two of them; and unlocking
leaves a lock attribute that a field has more often than it is listed.

Main statement: `Form.clearing_law` gives the exact condition under which nothing is left, and under
which doing the same again finds nothing to do.  It always holds where names are distinct, as they
are in all bags that the editor itself has built.
-/

set_option autoImplicit false

namespace FormEditor

variable {form : Form} {id : NodeId} {ids : List NodeId} {name : String} {removed : List String}

/-- The assignments that take names out. -/
def Form.removal (removed : List String) : List Assignment := removed.map fun name => (name, none)

theorem Attributes.names_assignAll_removal {bag : Attributes} :
    (bag.assignAll (Form.removal removed)).names = bag.names.diff removed := by
  induction removed generalizing bag with
  | nil => rfl
  | cons name removed ih =>
    show ((bag.assign name none).assignAll (Form.removal removed)).names = _
    rw [ih, names_assign_none, List.diff_cons]

namespace Form

/-! ## Counting entries -/

/-- How many entries a field has under a name. -/
def entryCount (form : Form) (name : String) (id : NodeId) : Nat :=
  ((form.get? id).map fun field => field.attributes.names.count name).getD 0

theorem carries_iff : form.carries name id ↔ 0 < form.entryCount name id := by
  unfold carries entryCount Attributes.contains
  cases form.get? id with
  | none => exact iff_of_false nofun nofun
  | some field =>
    show (field.attributes.get? name).isSome ↔ 0 < field.attributes.names.count name
    rw [Option.isSome_iff_exists, ← Attributes.mem_names_iff, List.count_pos_iff]

theorem entryCount_le_one (legible : form.Legible .values) : form.entryCount name id ≤ 1 := by
  unfold entryCount
  cases stored : form.get? id with
  | none => exact Nat.zero_le 1
  | some field => exact List.nodup_iff_count_le_one.mp (legible rfl id field stored) name

/-- Each time that a field comes up, one entry is taken out for each mention of its name. -/
theorem entryCount_amend :
    (form.amend (fun _ => removal removed) ids).2.entryCount name id =
      form.entryCount name id - ids.count id * removed.count name := by
  unfold entryCount
  rw [get?_amend]
  cases form.get? id with
  | none => exact (Nat.zero_sub _).symm
  | some field =>
    show ((Field.amended _)^[ids.count id] field).attributes.names.count name =
      field.attributes.names.count name - ids.count id * removed.count name
    induction ids.count id generalizing field with
    | zero => rw [Nat.zero_mul, Nat.sub_zero, Function.iterate_zero_apply]
    | succ times ih =>
      rw [Function.iterate_succ_apply, ih]
      show (field.attributes.assignAll (removal removed)).names.count name - _ = _
      rw [Attributes.names_assignAll_removal, List.count_diff, Nat.sub_sub, Nat.succ_mul,
        Nat.add_comm]

theorem carries_amend_eq_false_iff :
    (form.amend (fun _ => removal removed) ids).2.carries name id = false ↔
      form.entryCount name id ≤ ids.count id * removed.count name := by
  rw [Bool.eq_false_iff, ne_eq, carries_iff, entryCount_amend]
  omega

/-- Nothing is changed exactly if none of the fields has any of the names. -/
theorem amend_removal_eq_nil_iff :
    (form.amend (fun _ => removal removed) ids).1 = [] ↔
      ∀ id ∈ ids, ∀ name ∈ removed, form.carries name id = false := by
  rw [amend_fst_eq_nil_iff]
  refine forall₂_congr fun id _ => ?_
  unfold carries removal Attributes.contains
  cases form.get? id <;> simp

/-! ## Clearing and unlocking twice -/

/-- The form after the values at and below given fields have been cleared. -/
def cleared (form : Form) (ids : List NodeId) : Form :=
  (form.amend (fun _ => removal [AttributeName.value]) (form.subtreeIds ids)).2

/-- The form after given fields have been unlocked. -/
def unlocked (form : Form) (ids : List NodeId) : Form :=
  (form.amend (fun _ => removal AttributeName.lock) ids).2

theorem clearValues_eq (present : ∀ id ∈ ids, form.contains id) :
    clearValues ids form =
      .ok (form.amend (fun _ => removal [AttributeName.value]) (form.subtreeIds ids)).1
        (form.cleared ids) :=
  amend_of_present present

theorem unlockFields_eq (present : ∀ id ∈ ids, form.contains id) :
    unlockFields ids form =
      .ok (form.amend (fun _ => removal AttributeName.lock) ids).1 (form.unlocked ids) :=
  amend_of_present present

theorem carries_cleared_iff (met : id ∈ form.subtreeIds ids) :
    (form.cleared ids).carries AttributeName.value id = false ↔
      form.entryCount AttributeName.value id ≤ 1 := by
  unfold cleared
  rw [carries_amend_eq_false_iff, List.count_eq_one_of_mem nodup_subtreeIds met,
    List.count_singleton_self]

/-- The second time, clearing meets the same fields. -/
theorem WellFormed.cleared_again_iff (wellFormed : form.WellFormed) :
    ((form.cleared ids).amend (fun _ => removal [AttributeName.value])
        ((form.cleared ids).subtreeIds ids)).1 = [] ↔
      ∀ id ∈ form.subtreeIds ids, form.entryCount AttributeName.value id ≤ 1 := by
  rw [amend_removal_eq_nil_iff]
  refine forall_congr' fun id => ?_
  rw [show id ∈ (form.cleared ids).subtreeIds ids ↔ _ from wellFormed.mem_subtreeIds_amend]
  refine forall_congr' fun met => ?_
  rw [List.forall_mem_singleton, carries_cleared_iff met]

theorem carries_unlocked_iff (locking : name ∈ AttributeName.lock) :
    (form.unlocked ids).carries name id = false ↔
      form.entryCount name id ≤ ids.count id := by
  have once : ∀ name ∈ AttributeName.lock, AttributeName.lock.count name = 1 := by decide
  unfold unlocked
  rw [carries_amend_eq_false_iff, once name locking, Nat.mul_one]

theorem unlocked_again_iff :
    ((form.unlocked ids).amend (fun _ => removal AttributeName.lock) ids).1 = [] ↔
      ∀ id ∈ ids, ∀ name ∈ AttributeName.lock, form.entryCount name id ≤ ids.count id := by
  rw [amend_removal_eq_nil_iff]
  exact forall₂_congr fun id _ => forall₂_congr fun name locking => carries_unlocked_iff locking

/-! ## The law -/

/-- **When clearing clears and unlocking unlocks.**  In a valid form both succeed for any fields
that are there, and again after that.  Clearing leaves no value in a field at or below the given
ones exactly if it had one entry for it at most, and the second time there is nothing to do exactly
if this holds of all of them.  Unlocking leaves no attribute of a lock in a given field exactly if
the field is listed as often as it has entries for that attribute, and the second time there is
nothing to do exactly if this holds of all of them.  Where names are distinct there is one entry at
most. -/
theorem clearing_law (valid : form.validate = .ok ()) (present : ∀ id ∈ ids, form.contains id) :
    (∃ changes after again last,
      clearValues ids form = .ok changes after ∧ clearValues ids after = .ok again last ∧
      (∀ id, (∃ top ∈ ids, form.Under top id) →
        (after.carries AttributeName.value id = false ↔
          form.entryCount AttributeName.value id ≤ 1)) ∧
      (again = [] ↔ ∀ id, (∃ top ∈ ids, form.Under top id) →
        form.entryCount AttributeName.value id ≤ 1)) ∧
    (∃ changes after again last,
      unlockFields ids form = .ok changes after ∧ unlockFields ids after = .ok again last ∧
      (∀ id ∈ ids, ∀ name ∈ AttributeName.lock,
        (after.carries name id = false ↔ form.entryCount name id ≤ ids.count id)) ∧
      (again = [] ↔ ∀ id ∈ ids, ∀ name ∈ AttributeName.lock,
        form.entryCount name id ≤ ids.count id)) ∧
    (form.Legible .values → ∀ id name, form.entryCount name id ≤ 1) := by
  have wellFormed := validate_eq_ok_iff.mp valid
  have met {id : NodeId} : id ∈ form.subtreeIds ids ↔ ∃ top ∈ ids, form.Under top id :=
    wellFormed.mem_subtreeIds_of_present present
  refine ⟨⟨_, _, _, _, clearValues_eq present, clearValues_eq (present_amend present),
      fun id below => carries_cleared_iff (met.mpr below), ?_⟩,
    ⟨_, _, _, _, unlockFields_eq present, unlockFields_eq (present_amend present),
      fun id _ name locking => carries_unlocked_iff locking, unlocked_again_iff⟩,
    fun legible id name => entryCount_le_one legible⟩
  refine wellFormed.cleared_again_iff.trans (forall_congr' fun id => ?_)
  rw [met]

/-- A field is given by itself and with its parent, and twice: where names are distinct, the second
time finds nothing to do. -/
theorem clearing_law_overlapping :
    let form := ValueEdit.holding [("value", "1"), ("lockLevel", "x")]
    let ids : List NodeId := [⟨11⟩, ⟨10⟩, ⟨11⟩]
    (∃ changes after last, clearValues ids form = .ok changes after ∧
      clearValues ids after = .ok [] last ∧ after.carries AttributeName.value ⟨11⟩ = false) ∧
    ∃ changes after last, unlockFields ids form = .ok changes after ∧
      unlockFields ids after = .ok [] last ∧
      after.carries AttributeName.lockLevel ⟨11⟩ = false := by
  intro form ids
  have valid : form.validate = .ok () := by decide +kernel
  have present : ∀ id ∈ ids, form.contains id := by decide +kernel
  obtain ⟨⟨_, cleared, _, _, first, second, empty, done⟩,
    ⟨_, unlocked, _, _, first', second', empty', done'⟩, once⟩ := clearing_law valid present
  have few := once (ValueEdit.legible_holding _)
  have listed : (⟨11⟩ : NodeId) ∈ ids := List.mem_cons_self
  have often : ∀ id ∈ ids, ∀ name ∈ AttributeName.lock, form.entryCount name id ≤ ids.count id :=
    fun id listed name _ => Nat.le_trans (few id name) (List.count_pos_iff.mpr listed)
  cases done.mpr fun id _ => few id _
  cases done'.mpr often
  exact ⟨⟨_, cleared, _, first, second, (empty _ ⟨_, listed, .here⟩).mpr (few _ _)⟩,
    _, unlocked, _, first', second',
    (empty' _ listed _ (by decide)).mpr (often _ listed _ (by decide))⟩

/-- A root with two values and two lock levels, as a file may have it.  It keeps one of each when it
is cleared and unlocked, and the second time there is something left to do. -/
theorem clearing_law_fails :
    let form := (Branch.ofOutline ⟨10⟩ (.node ⟨[("value", "1"), ("value", "2"),
      ("lockLevel", "x"), ("lockLevel", "y")]⟩ [])).toForm
    form.validate = .ok () ∧ form.contains ⟨10⟩ ∧
    (∃ changes after again last, clearValues [⟨10⟩] form = .ok changes after ∧
      clearValues [⟨10⟩] after = .ok again last ∧
      after.carries AttributeName.value ⟨10⟩ = true ∧
      again = [⟨⟨10⟩, "value", some "2", none⟩]) ∧
    ∃ changes after again last, unlockFields [⟨10⟩] form = .ok changes after ∧
      unlockFields [⟨10⟩] after = .ok again last ∧
      after.carries AttributeName.lockLevel ⟨10⟩ = true ∧
      again = [⟨⟨10⟩, "lockLevel", some "y", none⟩] := by
  intro form
  have present : ∀ id ∈ [(⟨10⟩ : NodeId)], form.contains id := by decide +kernel
  exact ⟨by decide +kernel, by decide +kernel,
    ⟨_, _, _, _, clearValues_eq present, clearValues_eq (present_amend present),
      by decide +kernel, by decide +kernel⟩,
    _, _, _, _, unlockFields_eq present, unlockFields_eq (present_amend present),
    by decide +kernel, by decide +kernel⟩

end Form

end FormEditor
