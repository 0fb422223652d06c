import FormEditor.Proofs.Form.Calls

/-!
# Gathering fields under one parent

Fields from anywhere in a form may be moved to consecutive places under a parent that none of them
has.  They may come from several parents, and one of them may lie below another.  All of them are
checked on the form as it was, before the first one is moved.  This is enough as long as they are
distinct: what was checked of the others is still so after a move (`WellFormed.relink_gathers`),
and in the end the fields are gathered (`Form.gathered`, `WellFormed.relinkAll_gathers`).

It is not enough for a field that is named twice.  It passes the check twice, but it is moved a
second time when it has its new parent already.

Main statements: `moveRun_cases`, that fields side by side go all together or not at all; and
`moveRun_gathers_iff`, which lists of fields go all together or not at all.
-/

set_option autoImplicit false

namespace FormEditor.Form

variable {form : Form} {id other parent source : NodeId} {ids front back left right : List NodeId}
  {start : Nat} {target : Position}

/-! ## The gathered form -/

/-- The form in which fields have left their parents for consecutive places under another one. -/
def gathered (form : Form) (ids : List NodeId) (target : Position) : Form :=
  { form with
    fields := form.fields.map fun key field =>
      { field with
        parent := if key ∈ ids then some target.parent else field.parent
        children :=
          if key = target.parent then
            field.children.take target.index ++ (ids ++ field.children.drop target.index)
          else field.children.filter (· ∉ ids) } }

theorem get?_gathered :
    (form.gathered ids target).get? other =
      (form.get? other).map fun field =>
        { field with
          parent := if other ∈ ids then some target.parent else field.parent
          children :=
            if other = target.parent then
              field.children.take target.index ++ (ids ++ field.children.drop target.index)
            else field.children.filter (· ∉ ids) } := by
  show (Std.ExtTreeMap.map _ form.fields)[other]? = _
  rw [Std.ExtTreeMap.getElem?_map]
  rfl

theorem gathered_nil : form.gathered [] target = form := by
  refine ext_get? rfl fun key => ?_
  rw [get?_gathered]
  simp

/-- Gathering the first field and then the others behind it gathers all of them. -/
theorem gathered_gathered (room : target.index ≤ (form.children target.parent).length) :
    (form.gathered [id] target).gathered ids ⟨target.parent, target.index + 1⟩ =
      form.gathered (id :: ids) target := by
  refine ext_get? rfl fun key => ?_
  rw [get?_gathered, get?_gathered, get?_gathered, Option.map_map]
  cases found : form.get? key with
  | none => rfl
  | some field =>
    have parents : (if key ∈ ids then some target.parent
        else if key ∈ [id] then some target.parent else field.parent) =
        if key ∈ id :: ids then some target.parent else field.parent := by
      by_cases first : key = id <;> by_cases later : key ∈ ids <;> simp [first, later]
    by_cases here : key = target.parent
    · rw [← here, children_of_get? found] at room
      have length : (field.children.take target.index ++ [id]).length = target.index + 1 := by
        rw [List.length_append, List.length_take, Nat.min_eq_left room, List.length_singleton]
      have split : field.children.take target.index ++ ([id] ++ field.children.drop target.index) =
          field.children.take target.index ++ [id] ++ field.children.drop target.index :=
        (List.append_assoc ..).symm
      simp only [Option.map_some, Function.comp_apply, parents, if_pos here, split,
        List.take_left' length, List.drop_left' length]
      simp
    · have kept : (field.children.filter (· ∉ [id])).filter (· ∉ ids) =
          field.children.filter (· ∉ id :: ids) := by
        rw [List.filter_filter]
        refine List.filter_congr fun child _ => ?_
        rw [Bool.and_comm]
        simp
      simp only [Option.map_some, Function.comp_apply, parents, if_neg here, kept]

/-- Gathered fields stand side by side. -/
theorem block_gathered (stored : form.contains target.parent)
    (room : target.index ≤ (form.children target.parent).length) :
    (form.gathered ids target).Block target.parent target.index ids := by
  obtain ⟨field, found⟩ := contains_iff.mp stored
  rw [children_of_get? found] at room
  refine ⟨field.children.take target.index, field.children.drop target.index, ?_, ?_⟩
  · unfold children
    rw [get?_gathered, found]
    simp
  · rw [List.length_take, Nat.min_eq_left room]

/-- A run that goes to another parent is gathered there. -/
theorem Transfer.transferred_eq_gathered {destination : NodeId}
    (transfer : form.Transfer ids source front back destination left right)
    (wellFormed : form.WellFormed) :
    form.transferred ids source (front ++ back) destination (left ++ (ids ++ right)) =
      form.gathered ids ⟨destination, left.length⟩ := by
  refine ext_get? rfl fun key => ?_
  rw [get?_transferred, get?_gathered]
  cases found : form.get? key with
  | none => rfl
  | some field =>
    have children := children_of_get? found
    by_cases here : key = destination
    · rw [here, transfer.target_list] at children
      simp only [Option.map_some, if_pos here, ← children, List.take_left, List.drop_left]
    · have listed : (if key = source then front ++ back else field.children) =
          field.children.filter (· ∉ ids) := by
        split
        · rename_i there
          have stay : (front ++ back).filter (· ∉ ids) = front ++ back := by
            refine List.filter_eq_self.mpr fun child listed => decide_eq_true ?_
            exact fun moved => transfer.not_mem_left_behind wellFormed moved listed
          have gone : ids.filter (· ∉ ids) = [] := by simp
          rw [← children, there, transfer.source_list, List.filter_append, List.filter_append, gone,
            List.nil_append, ← List.filter_append, stay]
        · rename_i elsewhere
          refine (List.filter_eq_self.mpr fun child listed => decide_eq_true ?_).symm
          intro moved
          have above := transfer.block.parent?_eq wellFormed.toLinksFit moved
          rw [← children] at listed
          exact elsewhere (Option.some.inj ((wellFormed.parent?_eq listed).symm.trans above))
      simp only [Option.map_some, if_neg here, listed]

/-! ## Moving fields to a parent that they do not have -/

/-- The fields can go to a place under another parent: the place is there, none of them has that
parent, and it does not lie at or below them. -/
structure OpenTo (form : Form) (ids : List NodeId) (target : Position) : Prop where
  stored : form.contains target.parent
  room : target.index ≤ (form.children target.parent).length
  elsewhere : ∀ id ∈ ids, form.parent? id ≠ some target.parent
  free : ∀ id ∈ ids, ¬ form.Under id target.parent

theorem Transfer.openTo {destination : NodeId}
    (transfer : form.Transfer ids source front back destination left right)
    (wellFormed : form.WellFormed) : form.OpenTo ids ⟨destination, left.length⟩ where
  stored := transfer.target_stored
  room := by
    rw [transfer.target_list, List.length_append]
    exact Nat.le_add_right _ _
  elsewhere := fun _ listed above => transfer.apart (Option.some.inj
    ((transfer.block.parent?_eq wellFormed.toLinksFit listed).symm.trans above))
  free := transfer.free

namespace WellFormed

variable (wellFormed : form.WellFormed)
include wellFormed

/-- A field that can go to a place is moved there.  Other fields can still go to the places
behind it. -/
theorem relink_gathers (opened : form.OpenTo (id :: ids) target) (stored : form.contains id) :
    relink id target.parent target.index form = .ok () (form.gathered [id] target) ∧
      (form.gathered [id] target).WellFormed ∧
      (id ∉ ids → (form.gathered [id] target).OpenTo ids ⟨target.parent, target.index + 1⟩) := by
  have free := opened.free id List.mem_cons_self
  have elsewhere := opened.elsewhere id List.mem_cons_self
  have inner : id ≠ form.root := fun top => free (top ▸ wellFormed.reached opened.stored)
  obtain ⟨source, front, back, children⟩ := wellFormed.exists_siblings stored inner
  have stands : form.StandsAt id ⟨source, front.length⟩ := by
    unfold StandsAt
    rw [children, List.getElem?_append_right (Nat.le_refl _), Nat.sub_self]
    rfl
  have above := wellFormed.parent?_of_standsAt stands
  have apart : target.parent ≠ source := fun same => elsewhere (same ▸ above)
  have length : ((form.children target.parent).take target.index).length = target.index := by
    rw [List.length_take, Nat.min_eq_left opened.room]
  have transfer : form.Transfer [id] source front back target.parent
      ((form.children target.parent).take target.index)
      ((form.children target.parent).drop target.index) :=
    { source_list := children
      target_list := (List.take_append_drop _ _).symm
      source_stored := wellFormed.contains_parent above
      target_stored := opened.stored
      apart := apart.symm
      free := fun key listed => List.mem_singleton.mp listed ▸ free }
  have room : target.index ≤ if target.parent = source then
      (form.children target.parent).length - 1 else (form.children target.parent).length := by
    rw [if_neg apart]
    exact opened.room
  have moved := wellFormed.relink_eq stands opened.stored free room
  have same := transfer.transferred_eq_gathered wellFormed
  have grown := transfer.wellFormed_transferred wellFormed
  have relinked := transfer.relinked_eq
  rw [length] at relinked same
  rw [relinked] at moved
  refine ⟨moved.trans (congrArg _ same), same ▸ grown, fun fresh => ?_⟩
  have step : (form.gathered [id] target).OpenTo ids ⟨target.parent, target.index + 1⟩ ↔
      (form.transferred [id] source (front ++ back) target.parent
        ((form.children target.parent).take target.index ++
          ([id] ++ (form.children target.parent).drop target.index))).OpenTo ids
            ⟨target.parent, target.index + 1⟩ := by rw [same]
  rw [step]
  refine
    { stored := contains_transferred.trans opened.stored
      room := ?_
      elsewhere := fun key listed => ?_
      free := fun key listed under => ?_ }
  · rw [transfer.children_target, List.length_append, List.length_append, length]
    simp only [List.length_singleton]
    omega
  · have stays : key ∉ [id] := fun moved => fresh (List.mem_singleton.mp moved ▸ listed)
    rw [Transfer.parent?_transferred_of_not_mem stays]
    exact opened.elsewhere key (List.mem_cons_of_mem _ listed)
  · rw [wellFormed.under_transferred_iff opened.stored transfer.free] at under
    exact opened.free key (List.mem_cons_of_mem _ listed) under

/-- **Distinct fields that can go to a place are gathered there.** -/
theorem relinkAll_gathers (stored : ∀ id ∈ ids, form.contains id)
    (opened : form.OpenTo ids target) (distinct : ids.Nodup) :
    relinkAll target.parent target.index ids form = .ok () (form.gathered ids target) := by
  induction ids generalizing form target with
  | nil =>
    rw [gathered_nil]
    rfl
  | cons id ids ih =>
    obtain ⟨fresh, distinct⟩ := List.nodup_cons.mp distinct
    obtain ⟨here, others⟩ := List.forall_mem_cons.mp stored
    obtain ⟨moved, grown, still⟩ := wellFormed.relink_gathers opened here
    have kept : ∀ id' ∈ ids, (form.gathered [id] target).contains id' := fun id' listed => by
      unfold contains
      rw [get?_gathered, Option.isSome_map]
      exact others id' listed
    have further := ih grown kept (still fresh) distinct
    rw [gathered_gathered opened.room] at further
    have unfolded : relinkAll target.parent target.index (id :: ids) =
        (relink id target.parent target.index >>= fun _ =>
          relinkAll target.parent (target.index + 1) ids) := rfl
    rw [unfolded, Step.bind_of_ok moved]
    exact further

theorem checkMovable_eq_ok_iff (stored : form.contains parent) :
    form.checkMovable parent id = .ok () ↔
      form.contains id ∧ form.parent? id ≠ some parent ∧ ¬ form.Under id parent := by
  have beneath : (decide (id = parent) || form.isAncestor id parent) = true ↔
      form.Under id parent := by
    rw [Bool.or_eq_true, decide_eq_true_iff, wellFormed.isAncestor_iff]
    constructor
    · exact fun either => either.elim (fun same => same ▸ .here) Beneath.under
    · exact fun under => under.eq_or_beneath.imp_left Eq.symm
  constructor
  · intro checked
    obtain ⟨-, checked⟩ := Question.guard_eq_ok_iff.mp checked
    obtain ⟨field, found, checked⟩ := Question.bind_eq_ok_iff.mp checked
    have found := field_eq_ok_iff.mp found
    obtain ⟨elsewhere, checked⟩ := Question.guard_eq_ok_iff.mp checked
    rw [← parent?_of_get? found] at elsewhere
    refine ⟨contains_of_get? found, elsewhere, fun under => ?_⟩
    rw [if_pos (beneath.mpr under)] at checked
    cases checked
  · rintro ⟨inside, elsewhere, free⟩
    have inner : id ≠ form.root := fun top => free (top ▸ wellFormed.reached stored)
    obtain ⟨field, found⟩ := contains_iff.mp inside
    rw [parent?_of_get? found] at elsewhere
    unfold checkMovable
    rw [if_neg inner, field_of_get? found]
    dsimp only [Question.ok_bind]
    rw [if_neg elsewhere, if_neg (mt beneath.mp free)]
    rfl

end WellFormed

theorem checkIndex_eq_ok {place : Position} (stored : form.contains place.parent)
    (room : place.index ≤ (form.children place.parent).length) :
    form.checkIndex place = .ok () := by
  obtain ⟨field, found⟩ := contains_iff.mp stored
  rw [children_of_get? found] at room
  unfold checkIndex
  rw [field_of_get? found, Question.ok_bind, if_neg (Nat.not_lt.mpr room)]
  rfl

theorem checkIndex_eq_ok_iff {place : Position} :
    form.checkIndex place = .ok () ↔
      form.contains place.parent ∧ place.index ≤ (form.children place.parent).length := by
  constructor
  · intro checked
    obtain ⟨field, found, checked⟩ := Question.bind_eq_ok_iff.mp checked
    have stored := field_eq_ok_iff.mp found
    refine ⟨contains_of_get? stored, ?_⟩
    rw [children_of_get? stored]
    by_contra tooFar
    dsimp only at checked
    rw [if_pos (Nat.not_le.mp tooFar)] at checked
    cases checked
  · exact fun both => checkIndex_eq_ok both.1 both.2

/-- The fields are in the form and can go to the place. -/
def Gatherable (form : Form) (ids : List NodeId) (target : Position) : Prop :=
  (∀ id ∈ ids, form.contains id) ∧ form.OpenTo ids target

namespace WellFormed

variable (wellFormed : form.WellFormed)
include wellFormed

/-- Fields that can go to a place are moved one by one, and all others are refused. -/
theorem moveRun_eq_or_refused (ids : List NodeId) (target : Position) :
    (form.Gatherable ids target ∧
        moveRun ids target form = relinkAll target.parent target.index ids form) ∨
      ¬ form.Gatherable ids target ∧ ∃ fault, moveRun ids target form = .error fault form := by
  unfold moveRun
  cases place : form.checkIndex target with
  | error fault =>
    refine .inr ⟨fun gatherable => ?_, fault, Step.bind_of_error (Edit.ask_of_error place)⟩
    have opened := gatherable.2
    cases place.symm.trans (checkIndex_eq_ok opened.stored opened.room)
  | ok _ =>
    obtain ⟨stored, room⟩ := checkIndex_eq_ok_iff.mp place
    rw [Step.bind_of_ok (Edit.ask_of_ok place)]
    cases each : ids.forM (form.checkMovable target.parent) with
    | error fault =>
      refine .inr ⟨fun gatherable => ?_, fault, Step.bind_of_error (Edit.ask_of_error each)⟩
      obtain ⟨inside, opened⟩ := gatherable
      have all := Question.forM_eq_ok_iff.mpr fun id listed =>
        (wellFormed.checkMovable_eq_ok_iff stored).mpr
          ⟨inside id listed, opened.elsewhere id listed, opened.free id listed⟩
      cases each.symm.trans all
    | ok _ =>
      -- the checks ask each field for itself, and that is all there is to being open
      have movable := fun id listed => (wellFormed.checkMovable_eq_ok_iff stored).mp
        (Question.forM_eq_ok_iff.mp each id listed)
      refine .inl ⟨⟨fun id listed => (movable id listed).1, stored, room,
        fun id listed => (movable id listed).2.1, fun id listed => (movable id listed).2.2⟩, ?_⟩
      rw [Step.bind_of_ok (Edit.ask_of_ok each)]

/-- **Distinct fields that can go to a place go there.** -/
theorem moveRun_of_gatherable (gatherable : form.Gatherable ids target) (distinct : ids.Nodup) :
    moveRun ids target form = .ok () (form.gathered ids target) := by
  rcases wellFormed.moveRun_eq_or_refused ids target with ⟨⟨stored, opened⟩, moves⟩ | ⟨closed, -⟩
  · rw [moves, wellFormed.relinkAll_gathers stored opened distinct]
  · exact absurd gatherable closed

/-- **Fields side by side go all together or not at all.**  They go if and only if they can go to
the place; otherwise nothing changes. -/
theorem moveRun_cases (block : form.Block source start ids) :
    (∃ fault, moveRun ids target form = .error fault form) ∧ ¬ form.OpenTo ids target ∨
      form.OpenTo ids target ∧ ∃ after, moveRun ids target form = .ok () after ∧
        after.Block target.parent target.index ids := by
  have stored : ∀ id ∈ ids, form.contains id := fun _ => block.contains wellFormed.toLinksFit
  by_cases opened : form.OpenTo ids target
  · exact .inr ⟨opened, _,
      wellFormed.moveRun_of_gatherable ⟨stored, opened⟩ (block.nodup wellFormed.toLinksFit),
      block_gathered opened.stored opened.room⟩
  · rcases wellFormed.moveRun_eq_or_refused ids target with ⟨gatherable, -⟩ | ⟨-, refused⟩
    · exact absurd gatherable.2 opened
    · exact .inl ⟨refused, opened⟩

end WellFormed

namespace Transfer

variable {destination : NodeId}
  (transfer : form.Transfer ids source front back destination left right)
include transfer

/-- **Moving the fields of a run one after the other moves the run.** -/
theorem relinkAll_eq (wellFormed : form.WellFormed) :
    relinkAll destination left.length ids form =
      .ok () (form.transferred ids source (front ++ back) destination
        (left ++ (ids ++ right))) := by
  rw [transfer.transferred_eq_gathered wellFormed]
  exact wellFormed.relinkAll_gathers (fun _ => transfer.block.contains wellFormed.toLinksFit)
    (transfer.openTo wellFormed) (transfer.block.nodup wellFormed.toLinksFit)

theorem moveRun_eq (wellFormed : form.WellFormed) :
    moveRun ids ⟨destination, left.length⟩ form =
      .ok () (form.transferred ids source (front ++ back) destination
        (left ++ (ids ++ right))) := by
  rw [transfer.transferred_eq_gathered wellFormed]
  exact wellFormed.moveRun_of_gatherable
    ⟨fun _ => transfer.block.contains wellFormed.toLinksFit, transfer.openTo wellFormed⟩
    (transfer.block.nodup wellFormed.toLinksFit)

end Transfer

/-! ## Fields that are named twice -/

theorem parent?_relinked {place : Position} {index : Nat} (stored : form.contains id) :
    (form.relinked other place parent index).parent? id =
      if id = other then some parent else form.parent? id := by
  obtain ⟨field, found⟩ := contains_iff.mp stored
  unfold parent? relinked
  rw [get?_modifyField, get?_modifyField, get?_unlisted, found]
  split <;> split <;> split <;> rfl

/-- A field that has come under a parent stays there while fields are moved to that parent. -/
theorem keeps_relinkAll_parent {index : Nat} :
    (relinkAll parent index ids).Keeps fun form => form.parent? id = some parent := by
  induction ids generalizing index with
  | nil => exact .pure _
  | cons other ids ih =>
    refine .bind (.ask_bind fun form place above _ => ?_) fun _ => ih
    show (form.relinked other place parent index).parent? id = some parent
    rw [parent?_relinked (contains_of_parent? above), above, ite_self]

/-- The first of several fields that can go to a place has gone, whatever becomes of the others. -/
theorem WellFormed.parent?_relinkAll (wellFormed : form.WellFormed)
    (opened : form.OpenTo (id :: ids) target) (stored : form.contains id) :
    ((relinkAll target.parent target.index (id :: ids)).leaves form).parent? id =
      some target.parent := by
  obtain ⟨moved, -, -⟩ := wellFormed.relink_gathers opened stored
  have arrived : (form.gathered [id] target).parent? id = some target.parent := by
    obtain ⟨field, found⟩ := contains_iff.mp stored
    unfold parent?
    rw [get?_gathered, found]
    simp
  have unfolded : relinkAll target.parent target.index (id :: ids) form =
      relinkAll target.parent (target.index + 1) ids (form.gathered [id] target) :=
    Step.bind_of_ok moved
  have kept : ((relinkAll target.parent (target.index + 1) ids).leaves
      (form.gathered [id] target)).parent? id = some target.parent :=
    keeps_relinkAll_parent _ arrived
  unfold Edit.leaves at kept ⊢
  rwa [unfolded]

/-! ## The law -/

/-- Moving the fields is all or nothing: it is refused and changes nothing, or the fields come to
stand side by side at the place, and nothing changes besides. -/
def Gathers (form : Form) (ids : List NodeId) (target : Position) : Prop :=
  (∃ fault, moveRun ids target form = .error fault form) ∨
    moveRun ids target form = .ok () (form.gathered ids target) ∧
      (form.gathered ids target).Block target.parent target.index ids

/-- **Moving fields is all or nothing exactly if no field is named twice that can go.**  Fields are
refused before anything is changed if one of them is not in the form or cannot go to the place, and
distinct ones that can go are gathered there.  If fields can go but one of them is named twice, then
either the call is refused when a part of them has already been moved, or it is carried out and the
fields do not stand there as they were named. -/
theorem moveRun_gathers_iff (valid : form.validate = .ok ()) (ids : List NodeId)
    (target : Position) :
    (form.Gathers ids target ↔ (form.Gatherable ids target → ids.Nodup)) ∧
    (¬ form.Gatherable ids target → ∃ fault, moveRun ids target form = .error fault form) ∧
    (form.Gatherable ids target → ids.Nodup →
      moveRun ids target form = .ok () (form.gathered ids target) ∧
        (form.gathered ids target).Block target.parent target.index ids) ∧
    (form.Gatherable ids target → ¬ ids.Nodup →
      match moveRun ids target form with
      | .error _ after => after ≠ form
      | .ok _ after => ¬ after.Block target.parent target.index ids) := by
  have wellFormed := validate_eq_ok_iff.mp valid
  have gathers : form.Gatherable ids target → ids.Nodup →
      moveRun ids target form = .ok () (form.gathered ids target) ∧
        (form.gathered ids target).Block target.parent target.index ids := by
    intro gatherable distinct
    exact ⟨wellFormed.moveRun_of_gatherable gatherable distinct,
      block_gathered gatherable.2.stored gatherable.2.room⟩
  have refuses : ¬ form.Gatherable ids target →
      ∃ fault, moveRun ids target form = .error fault form := fun closed =>
    (wellFormed.moveRun_eq_or_refused ids target).elim (fun both => absurd both.1 closed) And.right
  have fails : form.Gatherable ids target → ¬ ids.Nodup →
      match moveRun ids target form with
      | .error _ after => after ≠ form
      | .ok _ after => ¬ after.Block target.parent target.index ids := by
    rintro ⟨stored, opened⟩ repeated
    cases done : moveRun ids target form with
    | ok _ after =>
      -- a form in which links fit together does not list a child twice
      have kept := keeps_moveRun.of_ok wellFormed done
      exact fun block => repeated (block.nodup kept.toLinksFit)
    | error fault after =>
      rcases wellFormed.moveRun_eq_or_refused ids target with ⟨-, moves⟩ | ⟨closed, -⟩
      · cases ids with
        | nil => exact absurd List.nodup_nil repeated
        | cons id ids =>
          have arrived := wellFormed.parent?_relinkAll opened (stored id List.mem_cons_self)
          unfold Edit.leaves at arrived
          rw [← moves, done] at arrived
          rintro rfl
          exact opened.elsewhere id List.mem_cons_self arrived
      · exact absurd ⟨stored, opened⟩ closed
  refine ⟨⟨?_, fun distinct => ?_⟩, refuses, gathers, fails⟩
  · intro law gatherable
    by_contra repeated
    have failed := fails gatherable repeated
    rcases law with ⟨fault, refused⟩ | ⟨done, block⟩
    · rw [refused] at failed
      exact failed rfl
    · rw [done] at failed
      exact failed block
  · by_cases gatherable : form.Gatherable ids target
    · exact .inr (gathers gatherable (distinct gatherable))
    · exact .inl (refuses gatherable)

/-- A field and one that it lies below go together, the lower one first. -/
theorem moveRun_gathers_nested :
    let form := (Branch.ofOutline ⟨10⟩ (.node .empty
      [.node .empty [.node .empty [.node .empty []]], .node .empty [.node .empty []]])).toForm
    ∃ after, moveRun [⟨13⟩, ⟨11⟩] ⟨⟨14⟩, 1⟩ form = .ok () after ∧
      after.children ⟨14⟩ = [⟨15⟩, ⟨13⟩, ⟨11⟩] ∧ after.children ⟨10⟩ = [⟨14⟩] ∧
        after.children ⟨11⟩ = [⟨12⟩] ∧ after.children ⟨12⟩ = [] := by
  intro form
  have valid : form.validate = .ok () := by decide +kernel
  have carried : (match moveRun [⟨13⟩, ⟨11⟩] ⟨⟨14⟩, 1⟩ form with
      | .ok _ _ => true
      | .error _ _ => false) = true := by decide +kernel
  obtain ⟨law, -⟩ := moveRun_gathers_iff valid [⟨13⟩, ⟨11⟩] ⟨⟨14⟩, 1⟩
  rcases law.mpr fun _ => by decide with ⟨fault, refused⟩ | ⟨done, -⟩
  · rw [refused] at carried
    cases carried
  · exact ⟨_, done, by decide +kernel⟩

/-- A field that is named twice is moved before its second turn is refused. -/
theorem moveRun_gathers_fails :
    let form := (Branch.ofOutline ⟨10⟩ (.node .empty [.node .empty [.node .empty []]])).toForm
    form.validate = .ok () ∧
      (∃ after, moveRun [⟨12⟩, ⟨12⟩] ⟨⟨10⟩, 1⟩ form = .error (.indexOutOfRange ⟨10⟩ 2 1) after ∧
        after.children ⟨10⟩ = [⟨11⟩, ⟨12⟩] ∧ after.children ⟨11⟩ = []) ∧
      ¬ form.Gathers [⟨12⟩, ⟨12⟩] ⟨⟨10⟩, 1⟩ := by
  intro form
  have carried : (match moveRun [⟨12⟩, ⟨12⟩] ⟨⟨10⟩, 1⟩ form with
      | .ok _ _ => false
      | .error fault after => decide (fault = .indexOutOfRange ⟨10⟩ 2 1 ∧
          after.children ⟨10⟩ = [⟨11⟩, ⟨12⟩] ∧ after.children ⟨11⟩ = [])) = true := by
    decide +kernel
  refine ⟨by decide +kernel, ?_⟩
  unfold Gathers
  cases done : moveRun [⟨12⟩, ⟨12⟩] ⟨⟨10⟩, 1⟩ form with
  | ok _ after =>
    rw [done] at carried
    cases carried
  | error fault after =>
    rw [done] at carried
    obtain ⟨rfl, upper, lower⟩ := of_decide_eq_true carried
    refine ⟨⟨after, rfl, upper, lower⟩, ?_⟩
    rintro (⟨fault, unchanged⟩ | ⟨carriedOut, -⟩)
    · -- the field would still be where it was
      cases unchanged
      exact absurd lower (by decide +kernel)
    · cases carriedOut

end FormEditor.Form
