import FormEditor.Proofs.Form.Moves

/-!
# Moving runs to another parent

A run that goes to another parent leaves one child list, enters another, and names its new parent
(`Form.transferred`).  The move leaves a well-formed form, and moving the run back undoes it.

Main statements: `Transfer.wellFormed_transferred` and `Transfer.transferred_back` describe the
new form; `Transfer.relinked_eq` says that a single field that is moved leads to it.
-/

set_option autoImplicit false

namespace FormEditor.Form

variable {form : Form} {id other top parent : NodeId} {ids : List NodeId}

/-! ## The form with the run elsewhere -/

/-- The form in which fields have left the child list of `source` for that of `target`. -/
def transferred (form : Form) (ids : List NodeId) (source : NodeId) (sourceList : List NodeId)
    (target : NodeId) (targetList : List NodeId) : Form :=
  { form with
    fields := form.fields.map fun key field =>
      { field with
        parent := if key ∈ ids then some target else field.parent
        children :=
          if key = target then targetList
          else if key = source then sourceList else field.children } }

/-- A run may go to another parent: it is a block of the one child list, the other list has a gap
for it, and the new parent does not lie at or below the run. -/
structure Transfer (form : Form) (ids : List NodeId) (source : NodeId) (front back : List NodeId)
    (target : NodeId) (left right : List NodeId) : Prop where
  source_list : form.children source = front ++ (ids ++ back)
  target_list : form.children target = left ++ right
  source_stored : form.contains source
  target_stored : form.contains target
  apart : source ≠ target
  free : ∀ id ∈ ids, ¬ form.Under id target

section Transferred

variable {source target : NodeId} {sourceList targetList front back left right : List NodeId}

theorem get?_transferred :
    (form.transferred ids source sourceList target targetList).get? other =
      (form.get? other).map fun field =>
        { field with
          parent := if other ∈ ids then some target else field.parent
          children :=
            if other = target then targetList
            else if other = source then sourceList else field.children } := by
  show (Std.ExtTreeMap.map _ form.fields)[other]? = _
  rw [Std.ExtTreeMap.getElem?_map]
  rfl

theorem contains_transferred :
    (form.transferred ids source sourceList target targetList).contains other =
      form.contains other := by
  unfold contains
  rw [get?_transferred, Option.isSome_map]

theorem parent?_transferred (stored : form.contains other) :
    (form.transferred ids source sourceList target targetList).parent? other =
      if other ∈ ids then some target else form.parent? other := by
  obtain ⟨field, found⟩ := contains_iff.mp stored
  unfold parent?
  rw [get?_transferred, found]
  rfl

theorem children_transferred (stored : form.contains other) :
    (form.transferred ids source sourceList target targetList).children other =
      if other = target then targetList
      else if other = source then sourceList else form.children other := by
  obtain ⟨field, found⟩ := contains_iff.mp stored
  unfold children
  rw [get?_transferred, found]
  rfl

/-- Nothing changes above a field that does not lie at or below the run. -/
theorem WellFormed.under_transferred_iff (wellFormed : form.WellFormed)
    (stored : form.contains other) (free : ∀ id ∈ ids, ¬ form.Under id other) :
    (form.transferred ids source sourceList target targetList).Under top other ↔
      form.Under top other := by
  have step : ∀ {key}, form.contains key → key ∉ ids →
      (form.transferred ids source sourceList target targetList).parent? key =
        form.parent? key := by
    intro key stored outside
    rw [parent?_transferred stored, if_neg outside]
  constructor
  · intro under
    induction under with
    | here => exact .here
    | step above _ ih =>
      rw [step stored fun listed => free _ listed .here] at above
      exact .step above (ih (wellFormed.contains_parent above) fun id listed under =>
        free id listed (.step above under))
  · intro under
    induction under with
    | here => exact .here
    | step above _ ih =>
      refine .step ((step stored fun listed => free _ listed .here).trans above) ?_
      exact ih (wellFormed.contains_parent above) fun id listed under =>
        free id listed (.step above under)

theorem Alike.transferred {α : Type} {view : Attributes → α} {first second : Form}
    (alike : first.Alike view second) :
    (first.transferred ids source sourceList target targetList).Alike view
      (second.transferred ids source sourceList target targetList) := by
  refine ⟨alike.1, ?_⟩
  intro key
  rw [get?_transferred, get?_transferred]
  have same := congrArg
    (Option.map fun (seen : NodeId × Option NodeId × List NodeId × α) =>
      (seen.1, (if key ∈ ids then some target else seen.2.1),
        (if key = target then targetList else if key = source then sourceList else seen.2.2.1),
        seen.2.2.2)) (alike.2 key)
  rw [Option.map_map, Option.map_map] at same ⊢
  exact same

namespace Transfer

variable (transfer : form.Transfer ids source front back target left right)
include transfer

theorem block : form.Block source front.length ids :=
  ⟨front, back, by rw [transfer.source_list, List.append_assoc], rfl⟩

theorem target_not_mem : target ∉ ids := fun listed => transfer.free _ listed .here

theorem alike {α : Type} {view : Attributes → α} {form' : Form} (alike : form.Alike view form') :
    form'.Transfer ids source front back target left right where
  source_list := alike.children_eq ▸ transfer.source_list
  target_list := alike.children_eq ▸ transfer.target_list
  source_stored := alike.contains_eq ▸ transfer.source_stored
  target_stored := alike.contains_eq ▸ transfer.target_stored
  apart := transfer.apart
  free := fun id listed under => transfer.free id listed (alike.symm.under under)

theorem children_target :
    (form.transferred ids source (front ++ back) target (left ++ (ids ++ right))).children target =
      left ++ (ids ++ right) := by
  rw [children_transferred transfer.target_stored, if_pos rfl]

theorem children_source :
    (form.transferred ids source (front ++ back) target (left ++ (ids ++ right))).children source =
      front ++ back := by
  rw [children_transferred transfer.source_stored, if_neg transfer.apart, if_pos rfl]

variable (wellFormed : form.WellFormed)
include wellFormed

/-- The run has left the child list of its former parent. -/
theorem not_mem_left_behind (listed : id ∈ ids) : id ∉ front ++ back := by
  have nodup := wellFormed.nodup source
  rw [transfer.source_list] at nodup
  have first := List.nodup_append.mp nodup
  have second := List.nodup_append.mp first.2.1
  intro member
  rcases List.mem_append.mp member with inFront | inBack
  · exact first.2.2 id inFront id (List.mem_append_left _ listed) rfl
  · exact second.2.2 id listed id inBack rfl

/-- The new parent did not list the run before. -/
theorem not_mem_target_list (listed : id ∈ ids) : id ∉ left ++ right := by
  intro member
  rw [← transfer.target_list] at member
  have above := transfer.block.parent?_eq wellFormed.toLinksFit listed
  exact transfer.apart (Option.some.inj (above.symm.trans (wellFormed.parent?_eq member)))

/-- Among the stored fields, exactly the new parent lists the run. -/
theorem listed_iff_of_mem {upper child : NodeId} (stored : form.contains upper)
    (moved : child ∈ ids) :
    child ∈ (form.transferred ids source (front ++ back) target
        (left ++ (ids ++ right))).children upper ↔ target = upper := by
  have above := transfer.block.parent?_eq wellFormed.toLinksFit moved
  rw [children_transferred stored]
  by_cases here : upper = target
  · rw [if_pos here]
    exact iff_of_true (List.mem_append_right _ (List.mem_append_left _ moved)) here.symm
  · rw [if_neg here]
    refine iff_of_false (fun listed => ?_) (Ne.symm here)
    split at listed
    · exact transfer.not_mem_left_behind wellFormed moved listed
    · rename_i elsewhere
      exact elsewhere (Option.some.inj ((wellFormed.parent?_eq listed).symm.trans above))

omit wellFormed in
/-- Nothing changes for a field that does not go with the run. -/
theorem listed_iff_of_not_mem {upper child : NodeId} (stored : form.contains upper)
    (stays : child ∉ ids) :
    child ∈ (form.transferred ids source (front ++ back) target
        (left ++ (ids ++ right))).children upper ↔ child ∈ form.children upper := by
  rw [children_transferred stored]
  split
  · rename_i here
    rw [here, transfer.target_list]
    simp only [List.mem_append, stays, false_or]
  · split
    · rename_i here
      rw [here, transfer.source_list]
      simp only [List.mem_append, stays, false_or]
    · rfl

omit transfer wellFormed in
theorem parent?_transferred_of_not_mem (stays : other ∉ ids) :
    (form.transferred ids source sourceList target targetList).parent? other =
      form.parent? other := by
  by_cases stored : form.contains other
  · rw [parent?_transferred stored, if_neg stays]
  · rw [parent?_of_not_contains stored,
      parent?_of_not_contains fun stored' => stored (contains_transferred ▸ stored')]

/-- The child lists agree with the links to the parents. -/
theorem listed_transferred_iff {upper child : NodeId} :
    child ∈ (form.transferred ids source (front ++ back) target
        (left ++ (ids ++ right))).children upper ↔
      (form.transferred ids source (front ++ back) target
        (left ++ (ids ++ right))).parent? child = some upper := by
  have fits := wellFormed.toLinksFit
  by_cases stored : form.contains upper
  · by_cases moved : child ∈ ids
    · rw [transfer.listed_iff_of_mem wellFormed stored moved,
        parent?_transferred (transfer.block.contains fits moved), if_pos moved, Option.some.injEq]
    · rw [transfer.listed_iff_of_not_mem stored moved, parent?_transferred_of_not_mem moved]
      exact fits.listed_iff
  · rw [children_of_not_contains fun stored' => stored (contains_transferred ▸ stored')]
    refine iff_of_false List.not_mem_nil ?_
    intro above
    have childStored := contains_of_parent? above
    rw [contains_transferred] at childStored
    rw [parent?_transferred childStored] at above
    split at above
    · exact stored (Option.some.inj above ▸ transfer.target_stored)
    · exact stored (fits.contains_parent above)

theorem nodup_transferred (upper : NodeId) :
    ((form.transferred ids source (front ++ back) target
      (left ++ (ids ++ right))).children upper).Nodup := by
  have fits := wellFormed.toLinksFit
  by_cases stored : form.contains upper
  · rw [children_transferred stored]
    split
    · have kept := fits.nodup target
      rw [transfer.target_list] at kept
      have shuffled : (left ++ (ids ++ right)).Perm (ids ++ (left ++ right)) :=
        List.perm_append_comm_assoc left ids right
      refine shuffled.nodup_iff.mpr
        (List.nodup_append.mpr ⟨transfer.block.nodup fits, kept, ?_⟩)
      exact fun id listed other member same =>
        transfer.not_mem_target_list wellFormed listed (same ▸ member)
    · split
      · have kept := fits.nodup source
        rw [transfer.source_list] at kept
        have shuffled : (front ++ (ids ++ back)).Perm (ids ++ (front ++ back)) :=
          List.perm_append_comm_assoc front ids back
        exact (List.nodup_append.mp (shuffled.nodup_iff.mp kept)).2.1
      · exact fits.nodup upper
  · rw [children_of_not_contains fun stored' => stored (contains_transferred ▸ stored')]
    exact List.nodup_nil

/-- Every field is still in reach of the root, by induction on the way up to it. -/
theorem reached_transferred (under : form.Under form.root other) (stored : form.contains other) :
    (form.transferred ids source (front ++ back) target
      (left ++ (ids ++ right))).Under form.root other := by
  -- the new parent is in reach of the root, and the run comes into reach through it
  have targetReached : (form.transferred ids source (front ++ back) target
      (left ++ (ids ++ right))).Under form.root target :=
    (wellFormed.under_transferred_iff transfer.target_stored transfer.free).mpr
      (wellFormed.reached transfer.target_stored)
  induction under with
  | here => exact .here
  | @step key parent above _ ih =>
    by_cases moved : key ∈ ids
    · exact .step (by rw [parent?_transferred stored, if_pos moved]) targetReached
    · exact .step (by rw [parent?_transferred stored, if_neg moved, above])
        (ih (wellFormed.contains_parent above))

/-- A run that goes to another parent leaves a well-formed form. -/
theorem wellFormed_transferred :
    (form.transferred ids source (front ++ back) target
      (left ++ (ids ++ right))).WellFormed where
  root_stored := contains_transferred.trans wellFormed.root_stored
  root_top := by
    have stays : form.root ∉ ids := fun listed =>
      transfer.block.ne_root wellFormed.toLinksFit listed rfl
    exact (parent?_transferred_of_not_mem stays).trans wellFormed.root_top
  own_id := by
    intro key field found
    rw [get?_transferred] at found
    obtain ⟨kept, here, rfl⟩ := Option.map_eq_some_iff.mp found
    have own : kept.id = key := wellFormed.own_id here
    exact own
  listed_iff := transfer.listed_transferred_iff wellFormed
  nodup := transfer.nodup_transferred wellFormed
  reached := by
    intro key stored
    rw [contains_transferred] at stored
    exact transfer.reached_transferred wellFormed (wellFormed.reached stored) stored

/-- The run may go back. -/
theorem back_again :
    (form.transferred ids source (front ++ back) target (left ++ (ids ++ right))).Transfer ids
      target left right source front back where
  source_list := transfer.children_target
  target_list := transfer.children_source
  source_stored := contains_transferred.trans transfer.target_stored
  target_stored := contains_transferred.trans transfer.source_stored
  apart := transfer.apart.symm
  free := fun id listed under => by
    have free : ∀ id ∈ ids, ¬ form.Under id source := fun id listed =>
      transfer.block.not_under_parent wellFormed listed
    exact free id listed
      ((wellFormed.under_transferred_iff transfer.source_stored free).mp under)

/-- When the run goes back its former parent may list its children in any order. -/
theorem transferred_relisted (list : List NodeId) :
    (form.transferred ids source (front ++ back) target (left ++ (ids ++ right))).transferred ids
      target (left ++ right) source list = form.relisted source list := by
  refine ext_get? rfl ?_
  intro key
  rw [get?_transferred, get?_transferred, get?_relisted]
  cases stored : form.get? key with
  | none => simp
  | some field =>
    have children := children_of_get? stored
    have parent : (if key ∈ ids then some source
        else if key ∈ ids then some target else field.parent) = field.parent := by
      split
      · rename_i listed
        rw [← parent?_of_get? stored, transfer.block.parent?_eq wellFormed.toLinksFit listed]
      · rfl
    have kept : (if key = target then left ++ right
        else if key = target then left ++ (ids ++ right)
        else if key = source then front ++ back else field.children) =
        if key = source then front ++ back else field.children := by
      split
      · rename_i here
        rw [if_neg (here ▸ transfer.apart.symm), ← children, here, transfer.target_list]
      · rfl
    by_cases there : key = source
    · simp only [Option.map_some, parent, if_pos there]
    · simp only [Option.map_some, parent, if_neg there]
      rw [if_neg there] at kept
      rw [kept]

/-- **The way back leads to the form as it was.** -/
theorem transferred_back :
    (form.transferred ids source (front ++ back) target (left ++ (ids ++ right))).transferred ids
      target (left ++ right) source (front ++ (ids ++ back)) = form := by
  rw [transfer.transferred_relisted wellFormed, ← transfer.source_list, relisted_children]

end Transfer

/-- A field that is moved to another parent leaves the one list and enters the other. -/
theorem Transfer.relinked_eq
    (transfer : form.Transfer [id] source front back target left right) :
    form.relinked id ⟨source, front.length⟩ target left.length =
      form.transferred [id] source (front ++ back) target (left ++ id :: right) := by
  have sourceList : form.children source = front ++ id :: back := transfer.source_list
  have outside : target ≠ id := fun same => transfer.target_not_mem (List.mem_singleton.mpr same)
  refine ext_get? rfl ?_
  intro key
  unfold relinked
  rw [get?_modifyField, get?_modifyField, get?_unlisted, get?_transferred]
  cases stored : form.get? key with
  | none => simp
  | some field =>
    have children := children_of_get? stored
    by_cases here : key = target
    · subst here
      rw [transfer.target_list] at children
      have member : key ∉ [id] := fun listed => outside (List.mem_singleton.mp listed)
      rw [if_neg outside, if_pos rfl, if_neg transfer.apart.symm]
      simp only [if_true, if_neg member, Option.map_some, ← children, insertIdx_length_append]
    · by_cases there : key = source
      · subst there
        rw [sourceList] at children
        simp only [if_true, if_neg here, Option.map_some, ← children, eraseIdx_length_append,
          List.mem_singleton]
        split <;> rfl
      · simp only [if_neg here, if_neg there, List.mem_singleton]
        split <;> rfl

end Transferred

end FormEditor.Form
