import FormEditor.Proofs.Selections
import Mathlib.Data.List.TakeDrop

/-!
# Selecting siblings one by one

However siblings are selected one after the other, the selection is the block that reaches from the
first to the last of those named since the others were last cleared (`Hull`).  So their order does
not matter, and naming one inside the block changes nothing.  Naming a field that is elsewhere, or
none at all, is refused before anything is written.

Main statement: `hull_law`.
-/

set_option autoImplicit false

namespace FormEditor.Selection

open Form

variable {selection chosen : Selection} {form after : Form} {id parent : NodeId}
  {siblings named : List NodeId} {low middle high index : Nat}

/-! ## Blocks of a list -/

/-- The siblings from one index up to another, which is not included. -/
def slice (siblings : List NodeId) (start stop : Nat) : List NodeId :=
  (siblings.drop start).take (stop - start)

theorem slice_append (first : low ≤ middle) (second : middle ≤ high) :
    slice siblings low middle ++ slice siblings middle high = slice siblings low high := by
  unfold slice
  have total : high - low = middle - low + (high - middle) := by omega
  have start : middle = low + (middle - low) := by omega
  rw [total, List.take_add, List.drop_drop, ← start]

theorem length_slice (room : high ≤ siblings.length) :
    (slice siblings low high).length = high - low := by
  unfold slice
  rw [List.length_take, List.length_drop]
  omega

theorem block_slice (ordered : low ≤ high) (room : high ≤ (form.children parent).length) :
    form.Block parent low (slice (form.children parent) low high) := by
  refine ⟨(form.children parent).take low, (form.children parent).drop high, ?_, ?_⟩
  · have split : (form.children parent).take (low + (high - low)) = _ := List.take_add
    rw [Nat.add_sub_cancel' ordered] at split
    unfold slice
    rw [← split, List.take_append_drop]
  · rw [List.length_take, Nat.min_eq_left (Nat.le_trans ordered room)]

/-- A run that is extended to an index reaches to that index, if it did not before. -/
theorem gained_slice (ordered : low ≤ high) :
    (gained form parent (low, high) index).1 ++ slice (form.children parent) low (high + 1) ++
      (gained form parent (low, high) index).2 =
        slice (form.children parent) (min low index) (max high index + 1) := by
  have siblings : ∀ start stop : Nat,
      (List.range' start (stop - start)).filterMap (form.child? parent) =
        slice (form.children parent) start stop := fun start stop =>
    filterMap_range'_getElem? (form.children parent) start (stop - start)
  unfold gained
  simp only [siblings]
  split
  · rename_i above
    rw [Nat.min_eq_left (by omega), Nat.max_eq_right (by omega), List.nil_append,
      slice_append (by omega) (by omega)]
  · split
    · rename_i below
      rw [Nat.min_eq_right (by omega), Nat.max_eq_left (by omega), List.append_nil,
        slice_append (by omega) (by omega)]
    · rw [Nat.min_eq_left (by omega), Nat.max_eq_left (by omega), List.nil_append, List.append_nil]

/-! ## Hulls -/

/-- The least and the greatest index of the siblings that are named. -/
structure Bounds (siblings named : List NodeId) (low high : Nat) : Prop where
  low_mem : low ∈ named.map siblings.idxOf
  high_mem : high ∈ named.map siblings.idxOf
  within : ∀ index ∈ named.map siblings.idxOf, low ≤ index ∧ index ≤ high

/-- The block of siblings that reaches from the first to the last of those that are named. -/
def Hull (siblings named block : List NodeId) : Prop :=
  ∃ low high, Bounds siblings named low high ∧ block = slice siblings low (high + 1)

theorem Bounds.extend (bounds : Bounds siblings named low high) :
    Bounds siblings (named ++ [id]) (min low (siblings.idxOf id))
      (max high (siblings.idxOf id)) := by
  have listed : ∀ {index}, index ∈ (named ++ [id]).map siblings.idxOf ↔
      index ∈ named.map siblings.idxOf ∨ index = siblings.idxOf id := by
    intro index
    rw [List.map_append, List.mem_append, List.map_singleton, List.mem_singleton]
  refine ⟨listed.mpr ?_, listed.mpr ?_, fun index member => ?_⟩
  · rcases Nat.le_total low (siblings.idxOf id) with first | first
    · exact .inl (by rw [Nat.min_eq_left first]; exact bounds.low_mem)
    · exact .inr (Nat.min_eq_right first)
  · rcases Nat.le_total high (siblings.idxOf id) with last | last
    · exact .inr (Nat.max_eq_right last)
    · exact .inl (by rw [Nat.max_eq_left last]; exact bounds.high_mem)
  · rcases listed.mp member with member | rfl
    · have within := bounds.within index member
      omega
    · omega

theorem Bounds.ordered (bounds : Bounds siblings named low high) : low ≤ high :=
  (bounds.within low bounds.low_mem).2

theorem Bounds.lt_length (bounds : Bounds siblings named low high)
    (listed : ∀ id ∈ named, id ∈ siblings) : high < siblings.length := by
  obtain ⟨id, member, rfl⟩ := List.mem_map.mp bounds.high_mem
  exact List.idxOf_lt_length_iff.mpr (listed id member)

/-- A hull depends only on which siblings are named. -/
theorem Hull.unique {named' block block' : List NodeId} (hull : Hull siblings named block)
    (hull' : Hull siblings named' block') (same : ∀ id, id ∈ named ↔ id ∈ named') :
    block = block' := by
  obtain ⟨low, high, bounds, rfl⟩ := hull
  obtain ⟨low', high', bounds', rfl⟩ := hull'
  have indices : ∀ index, index ∈ named.map siblings.idxOf ↔ index ∈ named'.map siblings.idxOf := by
    intro index
    simp only [List.mem_map, same]
  obtain rfl : low = low' := Nat.le_antisymm
    (bounds.within low' ((indices low').mpr bounds'.low_mem)).1
    (bounds'.within low ((indices low).mp bounds.low_mem)).1
  obtain rfl : high = high' := Nat.le_antisymm
    (bounds'.within high ((indices high).mp bounds.high_mem)).2
    (bounds.within high' ((indices high').mpr bounds'.high_mem)).2
  rfl

theorem hull_singleton (listed : id ∈ siblings) : Hull siblings [id] [id] := by
  have inside := List.idxOf_lt_length_iff.mpr listed
  refine ⟨siblings.idxOf id, siblings.idxOf id, ⟨by simp, by simp, by simp⟩, ?_⟩
  unfold slice
  rw [Nat.add_sub_cancel_left, List.drop_eq_getElem_cons inside, List.getElem_idxOf,
    List.take_succ_cons, List.take_zero]

/-! ## Picking siblings -/

/-- A field that is named to be selected. -/
structure Pick where
  id : NodeId
  clearOthers : Bool
deriving DecidableEq, Repr

/-- Selects fields one after the other. -/
def selectEach (selection : Selection) : List Pick → Edit Selection
  | [] => return selection
  | pick :: picks => do
    let selection ← selection.select pick.id pick.clearOthers
    selectEach selection picks

/-- The fields named after those that are given, since the others were last cleared. -/
def namedAfter (named : List NodeId) (picks : List Pick) : List NodeId :=
  picks.foldl (fun named pick => if pick.clearOthers then [pick.id] else named ++ [pick.id]) named

/-- Children of one parent are named, and nothing else stays selected. -/
structure Opens (form : Form) (parent : NodeId) (selection : Selection) (picks : List Pick) :
    Prop where
  nonempty : picks ≠ []
  children : ∀ pick ∈ picks, pick.id ∈ form.children parent
  starts : selection = .empty ∨ selection = ⟨[], true⟩ ∨ ∀ pick ∈ picks.head?, pick.clearOthers

/-- What selecting siblings comes to: the hull of those that are named, with exactly these
highlighted if the highlights were right before. -/
structure Reaches (form : Form) (parent : NodeId) (selection : Selection) (named : List NodeId)
    (chosen : Selection) (after : Form) : Prop where
  noRoot : chosen.rootSelected = false
  hull : Hull (form.children parent) named chosen.fields
  alike : after.Alike (fun bag => bag) form
  marks : selection.Marks form → chosen.Marks after

section Picking

variable (wellFormed : form.WellFormed) (listed : id ∈ form.children parent)
include wellFormed listed

theorem siblingIndex?_of_mem :
    form.siblingIndex? id = some ((form.children parent).idxOf id) := by
  have here : (form.children parent)[(form.children parent).idxOf id]? = some id := by
    rw [List.getElem?_eq_getElem (List.idxOf_lt_length_iff.mpr listed), List.getElem_idxOf]
  exact wellFormed.siblingIndex?_eq here

theorem select_child (selection : Selection) {clearOthers : Bool}
    (sibling : clearOthers = true ∨ ∀ other ∈ selection.parent? form, other = parent) :
    Selecting.select id clearOthers (selection, form) =
      if clearOthers then Selecting.selectOnly id (empty, selection.unmark form)
      else if selection.rootSelected then
        (if selection.fields.isEmpty then Selecting.selectOnly id else Selecting.extend parent id)
          ({ selection with rootSelected := false }, form.setHighlighted false form.root)
      else
        (if selection.fields.isEmpty then Selecting.selectOnly id else Selecting.extend parent id)
          (selection, form) := by
  have above := wellFormed.parent?_eq listed
  have allowed : selection.selectable form id clearOthers = .ok parent := by
    unfold selectable
    rw [above]
    dsimp only
    rw [if_neg]
    rw [Bool.and_eq_true, Bool.not_eq_true', Option.any_eq_true]
    rintro ⟨keep, other, upper, different⟩
    rcases sibling with clear | same
    · rw [keep] at clear
      cases clear
    · rw [same other upper, bne_self_eq_false] at different
      cases different
  rw [select_field (contains_of_parent? above) (wellFormed.ne_root above), allowed]

/-- The first field that is named is selected by itself. -/
theorem select_first {clearOthers : Bool}
    (starts : clearOthers = true ∨ selection.fields = []) :
    ∃ chosen after, selection.select id clearOthers form = .ok chosen after ∧
      Reaches form parent selection [id] chosen after := by
  have above := wellFormed.parent?_eq listed
  have hull := hull_singleton listed
  have chosen : ∃ after, Selecting.select id clearOthers (selection, form) =
      .ok ⟨⟩ (⟨[id], false⟩, after) := by
    rw [select_child wellFormed listed selection (starts.imp_right fun none other upper => ?_)]
    · rcases starts with rfl | none
      · exact ⟨_, rfl⟩
      · rw [none]
        cases clearOthers <;> cases selection.rootSelected <;> exact ⟨_, rfl⟩
    · unfold Selection.parent? at upper
      rw [none] at upper
      cases upper
  obtain ⟨after, done⟩ := chosen
  refine ⟨_, after, Selecting.onForm_of_ok done, ?_⟩
  rcases starts with rfl | none
  · obtain ⟨selection', after', done', alike, -, marks⟩ :=
      select_clearing selection wellFormed (contains_of_parent? above)
    cases done.symm.trans done'
    exact ⟨rfl, hull, alike, fun marked => marks marked.covers⟩
  · rcases select_cases wellFormed (.inl none) id clearOthers with
      ⟨fault, refused⟩ | ⟨selection', after', done', alike, -, marks⟩
    · cases done.symm.trans refused
    · cases done.symm.trans done'
      exact ⟨rfl, hull, alike, marks⟩

/-- The next field that is named extends the run. -/
theorem select_next (noRoot : selection.rootSelected = false)
    (hull : Hull (form.children parent) named selection.fields)
    (children : ∀ id ∈ named, id ∈ form.children parent) :
    ∃ chosen after, selection.select id false form = .ok chosen after ∧
      Reaches form parent selection (named ++ [id]) chosen after := by
  obtain ⟨low, high, range, fields⟩ := hull
  have ordered := range.ordered
  have inside := range.lt_length children
  have length : selection.fields.length = high + 1 - low := by
    rw [fields, length_slice inside]
  have filled : selection.fields ≠ [] := List.ne_nil_of_length_pos (by omega)
  have block : form.Block parent low selection.fields := by
    rw [fields]
    exact block_slice (by omega) inside
  have bounds : selection.bounds form = (low, high) := by
    rw [bounds_of_block wellFormed.toLinksFit filled block, length]
    congr 1
    omega
  have upper := parent?_of_block wellFormed.toLinksFit filled block
  have done : ∃ after, Selecting.select id false (selection, form) =
      .ok ⟨⟩ (⟨slice (form.children parent) (min low ((form.children parent).idxOf id))
        (max high ((form.children parent).idxOf id) + 1), false⟩, after) := by
    rw [select_child wellFormed listed selection (.inr fun other found =>
      Option.some.inj (found.symm.trans upper)), noRoot, if_neg Bool.false_ne_true,
      if_neg Bool.false_ne_true, if_neg fun none => filled (List.isEmpty_iff.mp none)]
    rw [Selecting.extend_of_index (siblingIndex?_of_mem wellFormed listed), bounds,
      ← gained_slice ordered, ← fields, ← noRoot]
    exact ⟨_, rfl⟩
  obtain ⟨after, done⟩ := done
  rcases select_cases wellFormed (.inr ⟨noRoot, parent, low, block⟩) id false with
    ⟨fault, refused⟩ | ⟨chosen, after', done', alike, -, marks⟩
  · cases done.symm.trans refused
  · cases done.symm.trans done'
    exact ⟨_, after, Selecting.onForm_of_ok done, rfl, ⟨_, _, range.extend, rfl⟩, alike, marks⟩

end Picking

/-! ## Runs of picks -/

/-- Naming siblings in two rounds. -/
theorem Reaches.trans {named' : List NodeId} {last : Selection} {final : Form}
    (reaches : Reaches form parent selection named chosen after)
    (further : Reaches after parent chosen named' last final) :
    Reaches form parent selection named' last final := by
  have same : after.children parent = form.children parent := reaches.alike.children_eq
  exact ⟨further.noRoot, same ▸ further.hull, further.alike.trans reaches.alike,
    fun marks => further.marks (reaches.marks marks)⟩

theorem selectEach_cons {pick : Pick} {picks : List Pick}
    (first : selection.select pick.id pick.clearOthers form = .ok chosen after) :
    selection.selectEach (pick :: picks) form = chosen.selectEach picks after :=
  Step.bind_of_ok first

/-- **Picking one sibling after the other keeps to the hull of those that are named.** -/
theorem selectEach_reaches (wellFormed : form.WellFormed) (noRoot : selection.rootSelected = false)
    (hull : Hull (form.children parent) named selection.fields)
    (children : ∀ id ∈ named, id ∈ form.children parent) {picks : List Pick}
    (listed : ∀ pick ∈ picks, pick.id ∈ form.children parent) :
    ∃ chosen after, selection.selectEach picks form = .ok chosen after ∧
      Reaches form parent selection (namedAfter named picks) chosen after := by
  induction picks generalizing selection form named with
  | nil => exact ⟨selection, form, rfl, noRoot, hull, .refl form, fun marks => marks⟩
  | cons pick picks ih =>
    obtain ⟨here, others⟩ := List.forall_mem_cons.mp listed
    have step : ∃ chosen after, selection.select pick.id pick.clearOthers form = .ok chosen after ∧
        Reaches form parent selection
          (if pick.clearOthers then [pick.id] else named ++ [pick.id]) chosen after := by
      cases clear : pick.clearOthers with
      | true => exact select_first wellFormed here (.inl rfl)
      | false => exact select_next wellFormed here noRoot hull children
    obtain ⟨chosen, after, done, reaches⟩ := step
    have same : after.children parent = form.children parent := reaches.alike.children_eq
    have named' : ∀ id ∈ (if pick.clearOthers then [pick.id] else named ++ [pick.id]),
        id ∈ after.children parent := by
      rw [same]
      split
      · exact List.forall_mem_singleton.mpr here
      · exact List.forall_mem_append.mpr ⟨children, List.forall_mem_singleton.mpr here⟩
    obtain ⟨last, final, rest, further⟩ := ih (reaches.alike.symm.wellFormed wellFormed)
      reaches.noRoot (same ▸ reaches.hull) named' (same.symm ▸ others)
    exact ⟨last, final, (selectEach_cons done).trans rest, reaches.trans further⟩

theorem Opens.exists_reaches {picks : List Pick} (opens : Opens form parent selection picks)
    (wellFormed : form.WellFormed) :
    ∃ chosen after, selection.selectEach picks form = .ok chosen after ∧
      Reaches form parent selection (namedAfter [] picks) chosen after := by
  obtain ⟨nonempty, children, starts⟩ := opens
  obtain ⟨pick, picks, rfl⟩ := List.exists_cons_of_ne_nil nonempty
  obtain ⟨here, others⟩ := List.forall_mem_cons.mp children
  have first : pick.clearOthers = true ∨ selection.fields = [] := by
    rcases starts with rfl | rfl | clears
    · exact .inr rfl
    · exact .inr rfl
    · exact .inl (clears pick rfl)
  obtain ⟨chosen, after, done, reaches⟩ := select_first wellFormed here first
  have same : after.children parent = form.children parent := reaches.alike.children_eq
  obtain ⟨last, final, rest, further⟩ := selectEach_reaches
    (reaches.alike.symm.wellFormed wellFormed) reaches.noRoot (same ▸ reaches.hull)
    (same.symm ▸ List.forall_mem_singleton.mpr here) (same.symm ▸ others)
  have named : namedAfter [] (pick :: picks) = namedAfter [pick.id] picks := by
    unfold namedAfter
    rw [List.foldl_cons, List.nil_append, ite_self]
  rw [named]
  exact ⟨last, final, (selectEach_cons done).trans rest, reaches.trans further⟩

/-! ## The law -/

section Refusals

variable (wellFormed : form.WellFormed) (fits : selection.Fits form)
include wellFormed fits

/-- Naming a selected field again changes nothing. -/
theorem select_inside (listed : id ∈ selection.fields) :
    selection.select id false form = .ok selection form := by
  obtain ⟨fields, rootSelected⟩ := selection
  have filled : fields ≠ [] := List.ne_nil_of_mem listed
  obtain ⟨noRoot, parent, start, block⟩ := fits.resolve_left filled
  obtain rfl : rootSelected = false := noRoot
  have upper := parent?_of_block wellFormed.toLinksFit filled block
  obtain ⟨offset, inside, rfl⟩ := List.getElem_of_mem listed
  have found := wellFormed.siblingIndex?_eq (block.standsAt inside)
  have inside : offset < fields.length := inside
  have none :
      gained form parent (start, start + fields.length - 1) (start + offset) = ([], []) := by
    unfold gained
    rw [if_neg (by omega), if_neg (by omega)]
  refine Selecting.onForm_of_ok ?_
  rw [select_child wellFormed (block.mem_children listed) _ (.inr fun other found =>
    Option.some.inj (found.symm.trans upper)), if_neg Bool.false_ne_true,
    if_neg Bool.false_ne_true, if_neg fun none => filled (List.isEmpty_iff.mp none)]
  rw [Selecting.extend_of_index found, bounds_of_block wellFormed.toLinksFit filled block]
  dsimp only
  rw [none, List.nil_append, List.append_nil]
  rfl

/-- A field with another parent cannot be added to the selected fields. -/
theorem select_elsewhere (filled : selection.fields ≠ []) (stored : form.contains id)
    (inner : id ≠ form.root) (elsewhere : form.parent? id ≠ selection.parent? form) :
    Selecting.select id false (selection, form) =
      .error (.selectionParentMismatch id) (selection, form) := by
  obtain ⟨-, parent, start, block⟩ := fits.resolve_left filled
  have upper := parent?_of_block wellFormed.toLinksFit filled block
  obtain ⟨other, above⟩ := wellFormed.exists_parent stored inner
  have different : parent ≠ other := fun same => elsewhere (by rw [above, upper, same])
  have refused : selection.selectable form id false = .error (.selectionParentMismatch id) := by
    unfold selectable
    rw [above, upper]
    dsimp only
    rw [if_pos]
    simpa using different
  rw [select_field stored inner, refused]

end Refusals

/-- Two ways of naming the same siblings select the same fields and lead to the same form. -/
theorem Reaches.unique {named' : List NodeId} {chosen' : Selection} {after' : Form}
    (reaches : Reaches form parent selection named chosen after)
    (reaches' : Reaches form parent selection named' chosen' after')
    (same : ∀ id, id ∈ named ↔ id ∈ named') :
    chosen = chosen' ∧ (selection.Marks form → after = after') := by
  obtain ⟨fields, rootSelected⟩ := chosen
  obtain ⟨fields', rootSelected'⟩ := chosen'
  obtain rfl : rootSelected = false := reaches.noRoot
  obtain rfl : rootSelected' = false := reaches'.noRoot
  obtain rfl : fields = fields' := reaches.hull.unique reaches'.hull same
  have alike := reaches.alike.trans reaches'.alike.symm
  refine ⟨rfl, fun marks => alike.eq_of_isHighlighted fun id => ?_⟩
  exact Bool.eq_iff_iff.mpr ((reaches.marks marks id).trans (reaches'.marks marks id).symm)

/-- **Selecting siblings one by one selects the hull of those that are named.**  From a selection of
nothing or of the root, and from any selection that is cleared first, naming children of one parent
selects those from the first to the last one that was named since the others were last cleared, in
their order, and no others are highlighted if the highlights were right before.  This holds after
each of them, since every beginning of such a series is one too.  So only the set of names counts.
Naming a selected field again changes nothing.  A field with another parent or one that is not there
is refused; and whatever is refused leaves the selection and the form as they were. -/
theorem hull_law (valid : form.validate = .ok ()) :
    (∀ (selection : Selection) parent picks, Opens form parent selection picks →
      ∃ chosen after, selection.selectEach picks form = .ok chosen after ∧
        chosen.rootSelected = false ∧
        Hull (form.children parent) (namedAfter [] picks) chosen.fields ∧
        after.Alike (fun bag => bag) form ∧
        (selection.Marks form → ∀ key, after.isHighlighted key ↔ key ∈ chosen.fields) ∧
        ∀ picks', Opens form parent selection picks' →
          (∀ id, id ∈ namedAfter [] picks ↔ id ∈ namedAfter [] picks') →
          ∃ after', selection.selectEach picks' form = .ok chosen after' ∧
            (selection.Marks form → after' = after)) ∧
    (∀ (selection : Selection) id, selection.Fits form → id ∈ selection.fields →
      selection.select id false form = .ok selection form) ∧
    (∀ (selection : Selection) id, selection.Fits form → selection.fields ≠ [] →
      form.contains id → id ≠ form.root → form.parent? id ≠ selection.parent? form →
      selection.select id false form = .error (.selectionParentMismatch id) form) ∧
    (∀ (selection : Selection) id clearOthers, ¬ form.contains id →
      selection.select id clearOthers form = .error (.nodeNotFound id) form) ∧
    ∀ (selection : Selection) id clearOthers fault left,
      Selecting.select id clearOthers (selection, form) = .error fault left →
        left = (selection, form) := by
  have wellFormed := validate_eq_ok_iff.mp valid
  refine ⟨fun selection parent picks opens => ?_,
    fun selection id fits => select_inside wellFormed fits,
    fun selection id fits filled stored inner elsewhere =>
      Selecting.onForm_of_error (select_elsewhere wellFormed fits filled stored inner elsewhere),
    fun selection id clearOthers missing =>
      Selecting.onForm_of_error (select_missing selection missing clearOthers),
    fun selection id clearOthers fault left => eq_of_select_eq_error wellFormed⟩
  obtain ⟨chosen, after, done, reaches⟩ := opens.exists_reaches wellFormed
  refine ⟨chosen, after, done, reaches.noRoot, reaches.hull, reaches.alike, fun marks key => ?_,
    fun picks' opens' same => ?_⟩
  · rw [reaches.marks marks key, highlighted_of_fields reaches.noRoot]
  · obtain ⟨chosen', after', done', reaches'⟩ := opens'.exists_reaches wellFormed
    obtain ⟨rfl, forms⟩ := reaches.unique reaches' same
    exact ⟨after', done', fun marks => (forms marks).symm⟩

/-- Five siblings: the last two are named, then the second one by itself, and then the fourth and
the first.  The other way around the same four are selected. -/
theorem hull_law_crossing :
    let form := (Branch.ofOutline ⟨10⟩ (.node .empty [.node .empty [], .node .empty [],
      .node .empty [], .node .empty [], .node .empty []])).toForm
    ∃ chosen after, chosen.fields = [⟨11⟩, ⟨12⟩, ⟨13⟩, ⟨14⟩] ∧
      (∀ key, after.isHighlighted key ↔ key ∈ chosen.fields) ∧
      Selection.empty.selectEach
        [⟨⟨14⟩, false⟩, ⟨⟨15⟩, false⟩, ⟨⟨12⟩, true⟩, ⟨⟨14⟩, false⟩, ⟨⟨11⟩, false⟩] form =
          .ok chosen after ∧
      Selection.empty.selectEach [⟨⟨11⟩, false⟩, ⟨⟨14⟩, false⟩, ⟨⟨12⟩, false⟩] form =
        .ok chosen after := by
  intro form
  have valid : form.validate = .ok () := by decide +kernel
  have wellFormed := validate_eq_ok_iff.mp valid
  have children : form.children ⟨10⟩ = [⟨11⟩, ⟨12⟩, ⟨13⟩, ⟨14⟩, ⟨15⟩] := by decide +kernel
  have unlit : ∀ field ∈ form.preorder, field.highlighted = false := by decide +kernel
  have marks : Selection.empty.Marks form := marks_empty fun id lit => by
    obtain ⟨field, found⟩ := contains_iff.mp (contains_of_isHighlighted lit)
    rw [isHighlighted_of_get? found] at lit
    obtain rfl := wellFormed.own_id found
    have listed := wellFormed.mem_descendants.mpr
      ⟨found, wellFormed.reached (contains_of_get? found)⟩
    rw [unlit field listed] at lit
    cases lit
  have reversed : List.Perm [(⟨12⟩ : NodeId), ⟨14⟩, ⟨11⟩] [⟨11⟩, ⟨14⟩, ⟨12⟩] := by decide
  obtain ⟨chosen, after, done, -, hull, -, lit, other⟩ := (hull_law valid).1 .empty ⟨10⟩
    [⟨⟨14⟩, false⟩, ⟨⟨15⟩, false⟩, ⟨⟨12⟩, true⟩, ⟨⟨14⟩, false⟩, ⟨⟨11⟩, false⟩]
    ⟨by decide, by decide +kernel, .inl rfl⟩
  obtain ⟨after', done', same⟩ := other [⟨⟨11⟩, false⟩, ⟨⟨14⟩, false⟩, ⟨⟨12⟩, false⟩]
    ⟨by decide, by decide +kernel, .inl rfl⟩ fun _ => reversed.mem_iff
  rw [children] at hull
  have four : Hull [⟨11⟩, ⟨12⟩, ⟨13⟩, ⟨14⟩, ⟨15⟩]
      (namedAfter [] [⟨⟨14⟩, false⟩, ⟨⟨15⟩, false⟩, ⟨⟨12⟩, true⟩, ⟨⟨14⟩, false⟩, ⟨⟨11⟩, false⟩])
      [⟨11⟩, ⟨12⟩, ⟨13⟩, ⟨14⟩] :=
    ⟨0, 3, ⟨by decide, by decide, by decide⟩, by decide⟩
  exact ⟨chosen, after, hull.unique four fun _ => Iff.rfl, lit marks, done, same marks ▸ done'⟩

end FormEditor.Selection
