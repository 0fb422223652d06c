import FormEditor.Proofs.Clearing

/-!
# Locks and what they cover

A field counts as locked when parent links lead from it up to a field that carries the time stamp of
a lock, in no step or more (`WellFormed.isLocked_iff`).  So a lock covers all that lies below, and
what an edit makes of the stamps decides what it makes of the locks.  Locking stamps the given
fields, whatever else it writes; unlocking takes the stamp from the given fields and leaves it
everywhere else.

Main statement: `Form.locking_law`.
-/

set_option autoImplicit false

namespace FormEditor

variable {form : Form} {id top : NodeId} {ids : List NodeId} {name : String}
  {pairs : List (String × String)}

/-- The assignments that write values under names. -/
def Form.writing (pairs : List (String × String)) : List Assignment :=
  pairs.map fun pair => (pair.1, some pair.2)

theorem Attributes.contains_assign_some {bag : Attributes} {key text : String} :
    (bag.assign key (some text)).contains name ↔ bag.contains name ∨ name = key := by
  unfold contains
  by_cases same : name = key
  · rw [same, get?_assign_some]
    exact iff_of_true rfl (.inr rfl)
  · rw [get?_assign_of_ne same, or_iff_left same]

theorem Attributes.contains_assignAll_writing {bag : Attributes} :
    (bag.assignAll (Form.writing pairs)).contains name ↔
      bag.contains name ∨ name ∈ pairs.map Prod.fst := by
  induction pairs generalizing bag with
  | nil => exact (or_iff_left List.not_mem_nil).symm
  | cons pair pairs ih =>
    show ((bag.assign pair.1 (some pair.2)).assignAll (Form.writing pairs)).contains name ↔ _
    rw [ih, contains_assign_some, List.map_cons, List.mem_cons, or_assoc]

namespace Form

/-! ## Who carries a name after an edit -/

theorem carries_of_get? {field : Field} (stored : form.get? id = some field) :
    form.carries name id = field.attributes.contains name := by
  unfold carries
  rw [stored, Option.any_some]

theorem carries_of_not_contains (missing : ¬ form.contains id) : form.carries name id = false := by
  unfold carries
  rw [not_contains_iff.mp missing, Option.any_none]

/-- A name that is written in some fields is carried by these, and by those that had it. -/
theorem carries_amend_writing :
    (form.amend (fun _ => writing pairs) ids).2.carries name id ↔
      form.carries name id ∨ form.contains id ∧ id ∈ ids ∧ name ∈ pairs.map Prod.fst := by
  have each : ∀ (times : Nat) (field : Field),
      ((Field.amended fun _ => writing pairs)^[times] field).attributes.contains name ↔
        field.attributes.contains name ∨ 0 < times ∧ name ∈ pairs.map Prod.fst := by
    intro times
    induction times with
    | zero => simp
    | succ times ih =>
      intro field
      have once : (field.amended fun _ => writing pairs).attributes.contains name ↔ _ :=
        Attributes.contains_assignAll_writing
      rw [Function.iterate_succ_apply, ih, once, or_assoc, or_iff_left_of_imp And.right,
        and_iff_right (Nat.succ_pos times)]
  cases stored : form.get? id with
  | none =>
    have missing := not_contains_iff.mpr stored
    have missing' : ¬ (form.amend (fun _ => writing pairs) ids).2.contains id := by
      rwa [amend_links.contains_eq]
    rw [carries_of_not_contains missing, carries_of_not_contains missing']
    exact iff_of_false nofun fun either => either.elim nofun fun both => missing both.1
  | some field =>
    have after : (form.amend (fun _ => writing pairs) ids).2.get? id =
        some ((Field.amended fun _ => writing pairs)^[ids.count id] field) := by
      rw [get?_amend, stored, Option.map_some]
    rw [carries_of_get? after, each, carries_of_get? stored, List.count_pos_iff,
      and_iff_right (contains_of_get? stored)]

/-- Where names are distinct, a name that is taken out of some fields is carried by the others. -/
theorem carries_unlocked (legible : form.Legible .values) (locking : name ∈ AttributeName.lock) :
    (form.unlocked ids).carries name id ↔ form.carries name id ∧ id ∉ ids := by
  have few : form.entryCount name id ≤ 1 := entryCount_le_one legible
  have gone : (form.unlocked ids).carries name id = false ↔ _ := carries_unlocked_iff locking
  rw [← Bool.not_eq_false, gone, carries_iff, ← List.count_pos_iff]
  omega

/-! ## What a lock covers -/

/-- A field that is set in its lineage is one at or below a field that carries the name. -/
theorem WellFormed.isSetInLineage_iff (wellFormed : form.WellFormed) :
    form.isSetInLineage name [id] ↔ ∃ top, form.Under top id ∧ form.carries name top := by
  have unfolded : form.isSetInLineage name [id] ↔
      form.carries name id ∨ ∃ top ∈ form.ancestors id, form.carries name top := by
    simp [isSetInLineage, isSetAbove]
  rw [unfolded]
  constructor
  · rintro (here | ⟨top, above, there⟩)
    · exact ⟨id, .here, here⟩
    · exact ⟨top, (wellFormed.mem_ancestors.mp above).under, there⟩
  · rintro ⟨top, under, there⟩
    rcases under.eq_or_beneath with rfl | beneath
    · exact .inl there
    · exact .inr ⟨top, wellFormed.mem_ancestors.mpr beneath, there⟩

theorem WellFormed.isLocked_iff (wellFormed : form.WellFormed) :
    form.isLocked id ↔ ∃ top, form.Under top id ∧ form.carries AttributeName.lockedAt top :=
  wellFormed.isSetInLineage_iff

/-- A lock covers all that lies below. -/
def CoversBelow (form : Form) : Prop :=
  ∀ top id, form.Under top id → form.isLocked top → form.isLocked id

theorem WellFormed.coversBelow (wellFormed : form.WellFormed) : form.CoversBelow := by
  intro top id under locked
  obtain ⟨stamped, above, carried⟩ := wellFormed.isLocked_iff.mp locked
  exact wellFormed.isLocked_iff.mpr ⟨stamped, above.trans under, carried⟩

theorem WellFormed.wellFormed_amend (wellFormed : form.WellFormed)
    {plan : Field → List Assignment} : (form.amend plan ids).2.WellFormed :=
  amend_links.symm.wellFormed wellFormed

/-- An edit of values leaves the fields where they are; only the stamps can change. -/
theorem WellFormed.isLocked_amend_iff (wellFormed : form.WellFormed)
    {plan : Field → List Assignment} :
    (form.amend plan ids).2.isLocked id ↔
      ∃ top, form.Under top id ∧ (form.amend plan ids).2.carries AttributeName.lockedAt top := by
  rw [wellFormed.wellFormed_amend.isLocked_iff]
  exact exists_congr fun top =>
    and_congr_left fun _ => ⟨amend_links.under, amend_links.symm.under⟩

/-! ## Locking and unlocking -/

/-- The form after given fields have been locked. -/
def locked (form : Form) (ids : List NodeId) (details : List (String × String)) (millis : Int) :
    Form :=
  (form.amend (fun _ => writing ((AttributeName.lockedAt, toString millis) :: details)) ids).2

theorem WellFormed.isLocked_locked_iff (wellFormed : form.WellFormed)
    (present : ∀ id ∈ ids, form.contains id) {details : List (String × String)} {millis : Int} :
    (form.locked ids details millis).isLocked id ↔
      form.isLocked id ∨ ∃ top ∈ ids, form.Under top id := by
  refine wellFormed.isLocked_amend_iff.trans ?_
  rw [wellFormed.isLocked_iff]
  constructor
  · rintro ⟨top, under, carried⟩
    rcases carries_amend_writing.mp carried with before | ⟨-, given, -⟩
    · exact .inl ⟨top, under, before⟩
    · exact .inr ⟨top, given, under⟩
  · rintro (⟨top, under, before⟩ | ⟨top, given, under⟩)
    · exact ⟨top, under, carries_amend_writing.mpr (.inl before)⟩
    · exact ⟨top, under, carries_amend_writing.mpr
        (.inr ⟨present top given, given, List.mem_cons_self⟩)⟩

theorem WellFormed.isLocked_unlocked_iff (wellFormed : form.WellFormed)
    (legible : form.Legible .values) :
    (form.unlocked ids).isLocked id ↔
      ∃ top, form.Under top id ∧ top ∉ ids ∧ form.carries AttributeName.lockedAt top := by
  refine wellFormed.isLocked_amend_iff.trans (exists_congr fun top => and_congr_right fun _ => ?_)
  exact (carries_unlocked legible List.mem_cons_self).trans and_comm

/-- **What locks cover.**  In a valid form with distinct names, given fields that are there can be
locked with any attributes and unlocked.  After locking, a field is locked exactly if it was locked
before or lies at or below a given one.  After unlocking, it is locked exactly if it lies at or
below a field that is not given and that carried the time stamp; so a given field stays locked as
long as such a field is above it.  At any time, what lies below a locked field is locked. -/
theorem locking_law (valid : form.validate = .ok ()) (legible : form.Legible .values)
    (present : ∀ id ∈ ids, form.contains id) :
    form.CoversBelow ∧
    (∀ details millis, ∃ changes after, lockFields ids details millis form = .ok changes after ∧
      after.CoversBelow ∧
      ∀ id, after.isLocked id ↔ form.isLocked id ∨ ∃ top ∈ ids, form.Under top id) ∧
    ∃ changes after, unlockFields ids form = .ok changes after ∧ after.CoversBelow ∧
      (∀ id, after.isLocked id ↔
        ∃ top, form.Under top id ∧ top ∉ ids ∧ form.carries AttributeName.lockedAt top) ∧
      ∀ id ∈ ids, ∀ top ∉ ids, form.Beneath top id → form.carries AttributeName.lockedAt top →
        after.isLocked id := by
  have wellFormed := validate_eq_ok_iff.mp valid
  have covers {plan : Field → List Assignment} : (form.amend plan ids).2.CoversBelow :=
    wellFormed.wellFormed_amend.coversBelow
  refine ⟨wellFormed.coversBelow, fun details millis => ?_, ?_⟩
  · exact ⟨_, form.locked ids details millis, amend_of_present present, covers,
      fun id => wellFormed.isLocked_locked_iff present⟩
  · refine ⟨_, form.unlocked ids, unlockFields_eq present, covers,
      fun id => wellFormed.isLocked_unlocked_iff legible, fun id _ top kept above carried => ?_⟩
    exact (wellFormed.isLocked_unlocked_iff legible).mpr ⟨top, above.under, kept, carried⟩

/-- Two fields are given, one of them twice; the other one lies two levels below a field with a
stamp.  Locking covers the first; unlocking leaves the second covered from above. -/
theorem locking_law_nested :
    let form := (Branch.ofOutline ⟨10⟩ (.node .empty
      [.node (.ofList [("lockedFieldUTC", "5")]) [.node .empty [.node .empty []]],
        .node .empty []])).toForm
    let ids : List NodeId := [⟨14⟩, ⟨13⟩, ⟨14⟩]
    form.isLocked ⟨14⟩ = false ∧
    (∃ changes after, lockFields ids [("lockLevel", "lockedTemplate")] 7 form = .ok changes after ∧
      after.isLocked ⟨14⟩) ∧
    ∃ changes after, unlockFields ids form = .ok changes after ∧ after.isLocked ⟨13⟩ := by
  intro form ids
  have valid : form.validate = .ok () := by decide +kernel
  have present : ∀ id ∈ ids, form.contains id := by decide +kernel
  have plain : (Outline.node .empty []).Each Attributes.Distinct :=
    .node Attributes.distinct_empty nofun
  have stamped : (Outline.node (.ofList [("lockedFieldUTC", "5")])
      [.node .empty [.node .empty []]]).Each Attributes.Distinct :=
    .node Attributes.distinct_ofList (List.forall_mem_singleton.mpr
      (.node Attributes.distinct_empty (List.forall_mem_singleton.mpr plain)))
  have legible : form.Legible .values := ValueEdit.legible_ofOutline (.node
    Attributes.distinct_empty
    (List.forall_mem_cons.mpr ⟨stamped, List.forall_mem_singleton.mpr plain⟩))
  obtain ⟨-, locks, changes, after, unlocked, -, -, stays⟩ := locking_law valid legible present
  obtain ⟨made, covered, done, -, covers⟩ := locks [("lockLevel", "lockedTemplate")] 7
  have above : form.parent? ⟨13⟩ = some ⟨12⟩ := by decide +kernel
  have above' : form.parent? ⟨12⟩ = some ⟨11⟩ := by decide +kernel
  have beneath : form.Beneath ⟨11⟩ ⟨13⟩ := ⟨⟨12⟩, above, .of_parent above'⟩
  exact ⟨by decide +kernel,
    ⟨made, covered, done, (covers _).mpr (.inr ⟨_, List.mem_cons_self, .here⟩)⟩,
    changes, after, unlocked,
    stays ⟨13⟩ (by decide) ⟨11⟩ (by decide) beneath (by decide +kernel)⟩

end Form

end FormEditor
