import FormEditor.Proofs.Form.Blocks
import FormEditor.Selection

/-!
# What selecting does

A selection fits a form when it is empty, the root by itself, or a block of siblings
(`Selection.Fits`).  It marks a form when exactly the selected fields are highlighted
(`Selection.Marks`).  Whatever is selected or dropped, the selection fits the form that results; and
if it marked the form before, it marks the form that results.  What is refused leaves the selection
and the form as they were.

Main statements: `select_cases`, `eq_of_select_eq_error`, `fits_of_block` and `prune_fits`.
-/

set_option autoImplicit false

namespace FormEditor

/-! ## Changes of a selection -/

namespace Selecting

variable {selection chosen : Selection} {form after : Form} {change : Selecting Unit}
  {id parent : NodeId}

/-- The run is extended to a sibling by what it gains. -/
theorem extend_of_index {index : Nat} (found : form.siblingIndex? id = some index) :
    extend parent id (selection, form) =
      let gained := Selection.gained form parent (selection.bounds form) index
      .ok ⟨⟩ ({ selection with fields := gained.1 ++ selection.fields ++ gained.2 },
        form.setAllHighlighted true (gained.1 ++ gained.2)) := by
  unfold extend
  rw [Step.get_bind]
  dsimp only
  rw [found]
  rfl

theorem onForm_of_ok (done : change (selection, form) = .ok ⟨⟩ (chosen, after)) :
    change.onForm selection form = .ok chosen after := by
  simp only [onForm, done]

theorem onForm_of_error {fault : Fault}
    (refused : change (selection, form) = .error fault (chosen, after)) :
    change.onForm selection form = .error fault after := by
  simp only [onForm, refused]

end Selecting

namespace Selection

open Form

variable {selection : Selection} {form form' : Form} {id other parent : NodeId} {start : Nat}
  {ids : List NodeId}

/-- The selected fields are none, or a block of siblings without the root. -/
def Fits (selection : Selection) (form : Form) : Prop :=
  selection.fields = [] ∨
    selection.rootSelected = false ∧ ∃ parent start, form.Block parent start selection.fields

/-- Exactly the selected fields are highlighted. -/
def Marks (selection : Selection) (form : Form) : Prop :=
  ∀ id : NodeId, form.isHighlighted id ↔ id ∈ selection.highlighted form

theorem fits_empty : empty.Fits form := .inl rfl

/-- A selection of fields selects nothing else. -/
theorem Fits.rootSelected_eq (fits : selection.Fits form) (filled : selection.fields ≠ []) :
    selection.rootSelected = false :=
  (fits.resolve_left filled).1

theorem Fits.alike {α : Type} {view : Attributes → α} (fits : selection.Fits form)
    (alike : form.Alike view form') : selection.Fits form' := by
  rcases fits with none | ⟨noRoot, parent, start, block⟩
  · exact .inl none
  · exact .inr ⟨noRoot, parent, start, alike.block block⟩

/-- Nothing is selected, or the root by itself, or fields that are the run they stand for. -/
theorem Fits.cases (fits : selection.Fits form) (wellFormed : form.WellFormed) :
    selection = .empty ∨ selection = ⟨[], true⟩ ∨
      selection.rootSelected = false ∧ selection.fields ≠ [] ∧ form.root ∉ selection.fields ∧
        ∃ run, form.run selection.fields = .ok run ∧ run.ids = selection.fields := by
  obtain ⟨fields, rootSelected⟩ := selection
  by_cases filled : fields = []
  · subst filled
    cases rootSelected with
    | false => exact .inl rfl
    | true => exact .inr (.inl rfl)
  · obtain ⟨noRoot, parent, start, block⟩ := fits.resolve_left filled
    exact .inr (.inr ⟨noRoot, filled,
      fun listed => block.ne_root wellFormed.toLinksFit listed rfl,
      _, wellFormed.run_of_block block filled, rfl⟩)

/-- What is selected is in the form. -/
theorem Fits.contains (fits : selection.Fits form) (wellFormed : form.WellFormed)
    (listed : id ∈ selection.highlighted form) : form.contains id := by
  unfold highlighted at listed
  split at listed
  · rw [List.mem_singleton.mp listed]
    exact wellFormed.root_stored
  · rcases fits with none | ⟨-, parent, start, block⟩
    · rw [none] at listed
      cases listed
    · exact block.contains wellFormed.toLinksFit listed

theorem highlighted_of_fields (noRoot : selection.rootSelected = false) :
    selection.highlighted form = selection.fields := by
  unfold highlighted
  rw [noRoot]
  rfl

theorem highlighted_of_root (rootSelected : selection.rootSelected = true) :
    selection.highlighted form = [form.root] := by
  unfold highlighted
  rw [rootSelected]
  rfl

/-! ## Taking highlights away -/

theorem unmark_alike {α : Type} {view : Attributes → α} :
    (selection.unmark form).Alike view form := by
  unfold unmark
  dsimp only
  split
  · exact Alike.setHighlighted.trans Alike.setAllHighlighted
  · exact Alike.setAllHighlighted

theorem isHighlighted_unmark :
    (selection.unmark form).isHighlighted id ↔
      form.isHighlighted id ∧ id ∉ selection.fields ∧
        ¬ (selection.rootSelected = true ∧ id = form.root) := by
  have fields : (form.setAllHighlighted false selection.fields).isHighlighted id ↔
      form.isHighlighted id ∧ id ∉ selection.fields := by
    rw [isHighlighted_setAllHighlighted]
    by_cases listed : id ∈ selection.fields <;> simp [listed]
  unfold unmark
  dsimp only
  split
  · rename_i selected
    rw [isHighlighted_setHighlighted, root_setAllHighlighted]
    by_cases top : id = form.root
    · simp [top, selected]
    · rw [if_neg top, fields]
      simp [top]
  · rename_i unselected
    rw [fields]
    simp [unselected]

/-- Whatever is highlighted is selected; what is selected may have left the form. -/
def Covers (selection : Selection) (form : Form) : Prop :=
  ∀ id : NodeId, form.isHighlighted id ↔ form.contains id ∧ id ∈ selection.highlighted form

theorem Marks.covers (marks : selection.Marks form) : selection.Covers form := by
  intro id
  rw [marks id]
  exact ⟨fun listed => ⟨contains_of_isHighlighted ((marks id).mpr listed), listed⟩, And.right⟩

/-- A selection that fits and covers what is highlighted marks it. -/
theorem Covers.marks (covers : selection.Covers form) (fits : selection.Fits form)
    (wellFormed : form.WellFormed) : selection.Marks form := fun id =>
  (covers id).trans (and_iff_right_of_imp (fits.contains wellFormed))

/-- No highlight is left once those of the selection are taken away. -/
theorem Covers.unmark (covers : selection.Covers form) (id : NodeId) :
    ¬ (selection.unmark form).isHighlighted id := by
  rw [isHighlighted_unmark, covers id]
  rintro ⟨⟨-, listed⟩, outside, notRoot⟩
  unfold highlighted at listed
  split at listed
  · rename_i selected
    exact notRoot ⟨selected, List.mem_singleton.mp listed⟩
  · exact outside listed

/-- Nothing is marked in a form without highlights. -/
theorem marks_empty (unlit : ∀ id : NodeId, ¬ form.isHighlighted id) : empty.Marks form :=
  fun id => iff_of_false (unlit id) List.not_mem_nil

/-- Highlighting the fields of a form without highlights marks them. -/
theorem marks_setAllHighlighted (unlit : ∀ id : NodeId, ¬ form.isHighlighted id)
    (stored : ∀ id ∈ ids, form.contains id) :
    (Selection.mk ids false).Marks (form.setAllHighlighted true ids) := by
  intro id
  rw [isHighlighted_setAllHighlighted, highlighted_of_fields rfl]
  by_cases listed : id ∈ ids
  · simp [listed, stored id listed]
  · simp [listed, unlit id]

/-! ## Selecting -/

/-- What came of a change of the selection: it was refused and changed nothing, or it changed
nothing but highlights, and the new selection fits. -/
def Changes (selection : Selection) (form : Form) (change : Selecting Unit) : Prop :=
  (∃ fault, change (selection, form) = .error fault (selection, form)) ∨
    ∃ selection' form', change (selection, form) = .ok ⟨⟩ (selection', form') ∧
      form'.Alike (fun bag => bag) form ∧ selection'.Fits form' ∧
        (selection.Marks form → selection'.Marks form')

theorem filterMap_range'_getElem? (list : List NodeId) (start count : Nat) :
    (List.range' start count).filterMap (fun index => list[index]?) =
      (list.drop start).take count := by
  induction count generalizing start with
  | zero => simp
  | succ count ih =>
    rw [List.range'_succ, List.filterMap_cons, ih]
    cases here : list[start]? with
    | none =>
      have short := List.getElem?_eq_none_iff.mp here
      rw [List.drop_eq_nil_of_le short, List.drop_eq_nil_of_le (Nat.le_succ_of_le short),
        List.take_nil, List.take_nil]
    | some id =>
      obtain ⟨inside, rfl⟩ := List.getElem?_eq_some_iff.mp here
      rw [List.drop_eq_getElem_cons inside, List.take_succ_cons]

theorem foldl_min_range' (start count : Nat) :
    (List.range' (start + 1) count).foldl min start = start := by
  have stays : ∀ {list : List Nat}, (∀ index ∈ list, start ≤ index) →
      list.foldl min start = start := by
    intro list above
    induction list with
    | nil => rfl
    | cons index list ih =>
      obtain ⟨here, rest⟩ := List.forall_mem_cons.mp above
      rw [List.foldl_cons, Nat.min_eq_left here, ih rest]
  refine stays ?_
  intro index listed
  rw [List.mem_range'_1] at listed
  omega

theorem foldl_max_range' (start count : Nat) :
    (List.range' (start + 1) count).foldl max start = start + count := by
  induction count generalizing start with
  | zero => rfl
  | succ count ih =>
    rw [List.range'_succ, List.foldl_cons, Nat.max_eq_right (Nat.le_succ start), ih]
    omega

/-- The bounds of a selected block are its first and last index. -/
theorem bounds_of_block (fits : form.LinksFit) (filled : selection.fields ≠ [])
    (block : form.Block parent start selection.fields) :
    selection.bounds form = (start, start + selection.fields.length - 1) := by
  have indices : selection.fields.filterMap form.siblingIndex? =
      List.range' start selection.fields.length := by
    have named : selection.fields.map form.siblingIndex? =
        (List.range' start selection.fields.length).map some := by
      refine List.ext_getElem (by simp) ?_
      intro index inside _
      rw [List.length_map] at inside
      rw [List.getElem_map, List.getElem_map, List.getElem_range', Nat.one_mul]
      exact fits.siblingIndex?_eq (block.standsAt inside)
    have unmapped := congrArg (List.filterMap (fun index : Option Nat => index)) named
    rw [List.filterMap_map, List.filterMap_map] at unmapped
    exact unmapped.trans (List.filterMap_some)
  obtain ⟨count, length⟩ := Nat.exists_eq_succ_of_ne_zero
    (Nat.ne_of_gt (List.length_pos_iff.mpr filled))
  unfold bounds
  rw [indices, length, List.range'_succ]
  dsimp only
  rw [foldl_min_range', foldl_max_range']
  congr 1

/-- Extending a block to a sibling gives a block. -/
theorem block_gained {index : Nat} {before after : List NodeId}
    (block : form.Block parent start ids) (filled : ids ≠ [])
    (gained : Selection.gained form parent (start, start + ids.length - 1) index =
      (before, after)) :
    (∃ start', form.Block parent start' (before ++ ids ++ after)) ∧
      ∀ id ∈ before ++ after, id ∈ form.children parent := by
  have length := List.length_pos_iff.mpr filled
  obtain ⟨front, back, children, rfl⟩ := block
  have siblings : ∀ low high : Nat, (List.range' low (high - low)).filterMap (form.child? parent) =
      ((form.children parent).drop low).take (high - low) := fun low high =>
    filterMap_range'_getElem? (form.children parent) low (high - low)
  unfold Selection.gained at gained
  simp only [siblings] at gained
  split at gained
  · cases gained
    have behind : (form.children parent).drop (front.length + ids.length - 1 + 1) = back := by
      rw [Nat.sub_add_cancel (by omega), children, ← List.length_append, List.drop_left]
    rw [behind]
    constructor
    · refine ⟨front.length, front, back.drop (index + 1 - (front.length + ids.length - 1 + 1)), ?_,
        rfl⟩
      rw [children, List.nil_append, List.append_assoc, List.append_assoc, List.append_assoc,
        List.take_append_drop]
    · intro id listed
      rw [children]
      exact List.mem_append_right _ (List.mem_of_mem_take listed)
  · split at gained
    · cases gained
      rename_i early
      have ahead : ((form.children parent).drop index).take (front.length - index) =
          front.drop index := by
        rw [children, List.append_assoc, List.drop_append_of_le_length (Nat.le_of_lt early),
          List.take_append_of_le_length (Nat.le_of_eq List.length_drop.symm),
          List.take_of_length_le (Nat.le_of_eq List.length_drop)]
      rw [ahead]
      constructor
      · refine ⟨index, front.take index, back, ?_, ?_⟩
        · rw [children, List.append_nil, ← List.append_assoc, List.take_append_drop]
        · rw [List.length_take, Nat.min_eq_left (Nat.le_of_lt early)]
      · intro id listed
        rw [List.append_nil] at listed
        rw [children, List.append_assoc]
        exact List.mem_append_left _ (List.mem_of_mem_drop listed)
    · cases gained
      refine ⟨⟨front.length, front, back, ?_, rfl⟩, fun id listed => by cases listed⟩
      rw [children, List.nil_append, List.append_nil]

/-- A field that is selected by itself. -/
theorem selectOnly_fits (wellFormed : form.WellFormed) (above : form.parent? id = some parent) :
    (Selection.mk [id] false).Fits (form.setHighlighted true id) := by
  obtain ⟨index, -, here⟩ := wellFormed.exists_siblingIndex? above
  have bound := (List.getElem?_eq_some_iff.mp here).1
  have alike : form.Alike (fun _ => ()) (form.setHighlighted true id) := Alike.setHighlighted.symm
  refine .inr ⟨rfl, parent, index, alike.block (Block.of_standsAt (Nat.le_of_lt bound) ?_)⟩
  intro offset inside
  obtain rfl : offset = 0 := Nat.lt_one_iff.mp inside
  exact here

/-- The parent of a selected block is that of its fields. -/
theorem parent?_of_block (fits : form.LinksFit) (filled : selection.fields ≠ [])
    (block : form.Block parent start selection.fields) : selection.parent? form = some parent := by
  obtain ⟨first, rest, fields⟩ := List.exists_cons_of_ne_nil filled
  unfold Selection.parent?
  rw [fields]
  exact block.parent?_eq fits (fields ▸ List.mem_cons_self)

/-- Extending the selected run to a sibling. -/
theorem extend_changes (wellFormed : form.WellFormed) (fits : selection.Fits form)
    (filled : selection.fields ≠ []) (above : form.parent? id = some parent)
    (sibling : ∀ other, selection.parent? form = some other → other = parent) :
    selection.Changes form (Selecting.extend parent id) := by
  obtain ⟨index, found, -⟩ := wellFormed.exists_siblingIndex? above
  have noRoot := fits.rootSelected_eq filled
  obtain ⟨-, upper, start, block⟩ := fits.resolve_left filled
  obtain rfl : upper = parent := sibling upper (parent?_of_block wellFormed.toLinksFit filled block)
  cases gained : Selection.gained form upper (selection.bounds form) index with
  | mk before after =>
    have bounds := bounds_of_block wellFormed.toLinksFit filled block
    obtain ⟨⟨start', wider⟩, listed⟩ := block_gained block filled (bounds ▸ gained)
    refine .inr ⟨⟨before ++ selection.fields ++ after, false⟩,
      form.setAllHighlighted true (before ++ after), ?_, Alike.setAllHighlighted, ?_, ?_⟩
    · rw [Selecting.extend_of_index found, gained, ← noRoot]
    · have alike : form.Alike (fun _ => ()) (form.setAllHighlighted true (before ++ after)) :=
        Alike.setAllHighlighted.symm
      exact .inr ⟨rfl, upper, start', alike.block wider⟩
    · intro marks key
      rw [isHighlighted_setAllHighlighted, highlighted_of_fields rfl]
      have before' := marks key
      rw [highlighted_of_fields noRoot] at before'
      by_cases new : key ∈ before ++ after
      · have stored := wellFormed.contains_child (listed key new)
        rw [if_pos new, stored]
        refine iff_of_true rfl ?_
        rcases List.mem_append.mp new with early | late
        · exact List.mem_append_left _ (List.mem_append_left _ early)
        · exact List.mem_append_right _ late
      · rw [if_neg new, before']
        rw [List.mem_append, not_or] at new
        simp [new]

theorem selectable_eq_ok {found : NodeId} {clearOthers : Bool}
    (above : form.parent? id = some parent)
    (allowed : selection.selectable form id clearOthers = .ok found) :
    found = parent ∧
      (clearOthers = false → ∀ other, selection.parent? form = some other → other = parent) := by
  unfold selectable at allowed
  rw [above] at allowed
  dsimp only at allowed
  split at allowed
  · cases allowed
  · rename_i matching
    cases allowed
    refine ⟨rfl, ?_⟩
    intro keep other upper
    rw [keep, upper] at matching
    simpa using matching

/-- A field that is selected by itself, in a form without other highlights. -/
theorem selectOnly_changes {other : Selection} (wellFormed : form.WellFormed)
    (above : form.parent? id = some parent) (cleared : form'.Alike (fun bag => bag) form)
    (unlit : selection.Marks form → ∀ id : NodeId, ¬ form'.isHighlighted id) :
    ∃ selection' after, Selecting.selectOnly id (other, form') = .ok ⟨⟩ (selection', after) ∧
      after.Alike (fun bag => bag) form ∧ selection'.Fits after ∧
        (selection.Marks form → selection'.Marks after) := by
  have above' : form'.parent? id = some parent := cleared.parent?_eq.trans above
  refine ⟨⟨[id], false⟩, form'.setHighlighted true id, rfl, Alike.setHighlighted.trans cleared,
    selectOnly_fits (cleared.symm.wellFormed wellFormed) above', fun marks => ?_⟩
  exact marks_setAllHighlighted (unlit marks) fun key listed => by
    rw [List.mem_singleton.mp listed]
    exact contains_of_parent? above'

/-- The root is selected in the place of what was selected. -/
theorem select_root (selection : Selection) (wellFormed : form.WellFormed) (clearOthers : Bool) :
    ∃ form', Selecting.select form.root clearOthers (selection, form) = .ok ⟨⟩ (⟨[], true⟩, form') ∧
      form'.Alike (fun bag => bag) form ∧
        (selection.Covers form → (Selection.mk [] true).Marks form') := by
  obtain ⟨field, stored⟩ := contains_iff.mp wellFormed.root_stored
  refine ⟨(selection.unmark form).setHighlighted true form.root, ?_,
    Alike.setHighlighted.trans unmark_alike, fun covers key => ?_⟩
  · unfold Selecting.select
    rw [Step.get_bind]
    dsimp only
    rw [field_of_get? stored, Step.ofExcept_bind, if_pos rfl]
    rfl
  · have alike : (selection.unmark form).Alike (fun _ => ()) form := unmark_alike
    have rootSame : ((selection.unmark form).setHighlighted true form.root).root = form.root :=
      alike.1
    rw [isHighlighted_setHighlighted, highlighted_of_root rfl, List.mem_singleton,
      alike.contains_eq, rootSame]
    by_cases here : key = form.root
    · simp [here, wellFormed.root_stored]
    · simp [here, covers.unmark key]

/-- Selecting a field below the root comes down to whether the selection allows it. -/
theorem select_field (stored : form.contains id) (top : id ≠ form.root) {clearOthers : Bool} :
    Selecting.select id clearOthers (selection, form) =
      match selection.selectable form id clearOthers with
      | .error fault => .error fault (selection, form)
      | .ok parent =>
        if clearOthers then Selecting.selectOnly id (empty, selection.unmark form)
        else if selection.rootSelected then
          (if selection.fields.isEmpty then Selecting.selectOnly id
            else Selecting.extend parent id)
            ({ selection with rootSelected := false }, form.setHighlighted false form.root)
        else
          (if selection.fields.isEmpty then Selecting.selectOnly id
            else Selecting.extend parent id) (selection, form) := by
  obtain ⟨field, found⟩ := contains_iff.mp stored
  unfold Selecting.select
  rw [Step.get_bind]
  dsimp only
  rw [field_of_get? found, Step.ofExcept_bind, if_neg top, Step.ofExcept_bind]
  cases selection.selectable form id clearOthers with
  | error fault => rfl
  | ok parent =>
    cases clearOthers with
    | true => rfl
    | false =>
      dsimp only
      rw [if_neg Bool.false_ne_true, if_neg Bool.false_ne_true]
      unfold Selecting.dropRoot
      rw [Step.modify_bind, Step.get_bind]
      cases rootSelected : selection.rootSelected <;> simp only [rootSelected] <;> rfl

/-- A field below the root is selected by itself in the place of what was selected. -/
theorem select_alone (selection : Selection) (wellFormed : form.WellFormed)
    (above : form.parent? id = some parent) :
    Selecting.select id true (selection, form) =
      .ok ⟨⟩ (⟨[id], false⟩, (selection.unmark form).setHighlighted true id) := by
  have allowed : selection.selectable form id true = .ok parent := by
    unfold selectable
    rw [above]
    rfl
  rw [select_field (contains_of_parent? above) (wellFormed.ne_root above), allowed]
  rfl

/-- A field that is there can be selected in the place of what was selected. -/
theorem select_clearing (selection : Selection) (wellFormed : form.WellFormed)
    (stored : form.contains id) :
    ∃ selection' form', Selecting.select id true (selection, form) = .ok ⟨⟩ (selection', form') ∧
      form'.Alike (fun bag => bag) form ∧ selection'.Fits form' ∧
        (selection.Covers form → selection'.Marks form') := by
  by_cases top : id = form.root
  · obtain ⟨form', done, alike, marks⟩ := select_root selection wellFormed true
    exact ⟨_, form', top ▸ done, alike, .inl rfl, marks⟩
  · obtain ⟨parent, above⟩ := wellFormed.exists_parent stored top
    have cleared : (selection.unmark form).Alike (fun bag => bag) form := unmark_alike
    have above' : (selection.unmark form).parent? id = some parent :=
      cleared.parent?_eq.trans above
    refine ⟨_, _, selection.select_alone wellFormed above,
      Alike.setHighlighted.trans cleared,
      selectOnly_fits (cleared.symm.wellFormed wellFormed) above', fun covers => ?_⟩
    exact marks_setAllHighlighted covers.unmark fun key listed => by
      rw [List.mem_singleton.mp listed]
      exact contains_of_parent? above'

/-- What is not in the form cannot be selected. -/
theorem select_missing (selection : Selection) (missing : ¬ form.contains id) (clearOthers : Bool) :
    Selecting.select id clearOthers (selection, form) =
      .error (.nodeNotFound id) (selection, form) := by
  unfold Selecting.select
  rw [Step.get_bind]
  dsimp only
  rw [field_of_not_contains missing, Step.ofExcept_bind]

/-- A field is selected, or the selection stays as it is. -/
theorem select_cases (wellFormed : form.WellFormed) (fits : selection.Fits form)
    (id : NodeId) (clearOthers : Bool) :
    selection.Changes form (Selecting.select id clearOthers) := by
  by_cases stored : form.contains id
  · by_cases top : id = form.root
    · obtain ⟨form', done, alike, marks⟩ := select_root selection wellFormed clearOthers
      exact .inr ⟨_, form', top ▸ done, alike, .inl rfl, fun marked => marks marked.covers⟩
    · obtain ⟨parent, above⟩ := wellFormed.exists_parent stored top
      unfold Changes
      rw [select_field stored top]
      cases allowed : selection.selectable form id clearOthers with
      | error fault => exact .inl ⟨fault, rfl⟩
      | ok found =>
        obtain ⟨rfl, sibling⟩ := selectable_eq_ok above allowed
        dsimp only
        cases clearOthers with
        | true =>
          exact .inr (selectOnly_changes wellFormed above unmark_alike
            fun marks => marks.covers.unmark)
        | false =>
          rw [if_neg Bool.false_ne_true]
          by_cases filled : selection.fields = []
          · -- only the root can be selected here
            rw [if_pos (List.isEmpty_iff.mpr filled)]
            split
            · rename_i rootSelected
              refine .inr (selectOnly_changes wellFormed above Alike.setHighlighted ?_)
              intro marks key
              rw [isHighlighted_setHighlighted]
              have before := marks key
              rw [highlighted_of_root rootSelected, List.mem_singleton] at before
              by_cases here : key = form.root
              · simp [here]
              · rw [if_neg here, before]
                exact here
            · rename_i notRoot
              refine .inr (selectOnly_changes wellFormed above (Alike.refl form) ?_)
              intro marks key
              rw [marks key, highlighted_of_fields (Bool.eq_false_iff.mpr notRoot), filled]
              exact List.not_mem_nil
          · have some : ¬ selection.fields.isEmpty := fun none =>
              filled (List.isEmpty_iff.mp none)
            rw [fits.rootSelected_eq filled, if_neg Bool.false_ne_true, if_neg some]
            exact extend_changes wellFormed fits filled above (sibling rfl)
  · exact .inl ⟨.nodeNotFound id, select_missing selection stored clearOthers⟩

theorem exists_extend (selection : Selection) (wellFormed : form.WellFormed)
    (above : form.parent? id = some parent) :
    ∃ left, Selecting.extend parent id (selection, form) = .ok ⟨⟩ left := by
  obtain ⟨index, found, -⟩ := wellFormed.exists_siblingIndex? above
  exact ⟨_, Selecting.extend_of_index found⟩

/-- A field that may be selected is selected: what could be refused after the first write is found
wherever links fit together. -/
theorem exists_select {clearOthers : Bool} (wellFormed : form.WellFormed)
    (above : form.parent? id = some parent)
    (allowed : selection.selectable form id clearOthers = .ok parent) :
    ∃ left, Selecting.select id clearOthers (selection, form) = .ok ⟨⟩ left := by
  have added {middle : Form} (before : Selection) (alike : middle.Alike (fun bag => bag) form) :
      ∃ left, (if selection.fields.isEmpty then Selecting.selectOnly id
        else Selecting.extend parent id) (before, middle) = .ok ⟨⟩ left := by
    split
    · exact ⟨_, rfl⟩
    · exact exists_extend before (alike.symm.wellFormed wellFormed)
        (alike.parent?_eq.trans above)
  rw [select_field (contains_of_parent? above) (wellFormed.ne_root above), allowed]
  dsimp only
  split
  · exact ⟨_, rfl⟩
  · split
    · exact added _ Alike.setHighlighted
    · exact added selection (Alike.refl form)

/-- A field that is refused leaves the selection and the form as they were, whatever was selected
before. -/
theorem eq_of_select_eq_error (wellFormed : form.WellFormed) {clearOthers : Bool} {fault : Fault}
    {left : Selection × Form}
    (refused : Selecting.select id clearOthers (selection, form) = .error fault left) :
    left = (selection, form) := by
  by_cases stored : form.contains id
  · by_cases top : id = form.root
    · obtain ⟨form', done, -⟩ := select_root selection wellFormed clearOthers
      cases (top ▸ done).symm.trans refused
    · obtain ⟨parent, above⟩ := wellFormed.exists_parent stored top
      cases allowed : selection.selectable form id clearOthers with
      | error cause =>
        rw [select_field stored top, allowed] at refused
        cases refused
        rfl
      | ok found =>
        obtain ⟨rfl, -⟩ := selectable_eq_ok above allowed
        obtain ⟨chosen, done⟩ := exists_select wellFormed above allowed
        cases done.symm.trans refused
  · cases (select_missing selection stored clearOthers).symm.trans refused
    rfl

/-! ## Selecting a run -/

/-- The run that ids stand for is selected in the place of what was selected. -/
theorem selectRun_of_ok (selection : Selection) {run : Run} (found : form.run ids = .ok run) :
    Selecting.selectRun ids (selection, form) =
      .ok ⟨⟩ (⟨run.ids, false⟩, (selection.unmark form).setAllHighlighted true run.ids) := by
  unfold Selecting.selectRun
  rw [Step.get_bind, found, Step.ofExcept_bind]
  rfl

/-- Ids that do not stand for a run leave everything as it was. -/
theorem selectRun_of_error (selection : Selection) {fault : Fault}
    (refused : form.run ids = .error fault) :
    Selecting.selectRun ids (selection, form) = .error fault (selection, form) := by
  unfold Selecting.selectRun
  rw [Step.get_bind, refused, Step.ofExcept_bind]

/-- A block is selected in the place of what was selected. -/
theorem selectRun_of_block (selection : Selection) (wellFormed : form.WellFormed)
    (filled : ids ≠ []) (block : form.Block parent start ids) :
    Selecting.selectRun ids (selection, form) =
      .ok ⟨⟩ (⟨ids, false⟩, (selection.unmark form).setAllHighlighted true ids) :=
  selection.selectRun_of_ok (wellFormed.run_of_block block filled)

/-- A block that is selected in the place of what was selected fits, and is marked. -/
theorem fits_of_block (selection : Selection) (wellFormed : form.WellFormed)
    (block : form.Block parent start ids) :
    ((selection.unmark form).setAllHighlighted true ids).Alike (fun bag => bag) form ∧
      (Selection.mk ids false).Fits ((selection.unmark form).setAllHighlighted true ids) ∧
        (selection.Covers form →
          (Selection.mk ids false).Marks ((selection.unmark form).setAllHighlighted true ids)) := by
  have cleared : (selection.unmark form).Alike (fun bag => bag) form := unmark_alike
  have alike : ((selection.unmark form).setAllHighlighted true ids).Alike (fun bag => bag) form :=
    Alike.setAllHighlighted.trans cleared
  refine ⟨alike, .inr ⟨rfl, parent, start, alike.symm.block block⟩, fun covers => ?_⟩
  refine marks_setAllHighlighted covers.unmark ?_
  intro id listed
  rw [cleared.contains_eq]
  exact block.contains wellFormed.toLinksFit listed

/-! ## Dropping what is gone -/

/-- Dropping what has left the form gives a selection that fits. -/
theorem prune_fits (wellFormed : form.WellFormed)
    (exclusive : selection.fields ≠ [] → selection.rootSelected = false) :
    (selection.prune form).1.Fits (selection.prune form).2 ∧
      (selection.prune form).2.Alike (fun bag => bag) form ∧
        (selection.Covers form → (selection.prune form).1.Marks (selection.prune form).2) := by
  have listed_iff : ∀ id : NodeId, id ∈ selection.fields.filter form.contains ↔
      form.contains id ∧ id ∈ selection.fields := fun id => by
    rw [List.mem_filter]
    exact And.comm
  unfold prune
  dsimp only
  split
  · rename_i none
    have none : selection.fields.filter form.contains = [] := List.isEmpty_iff.mp none
    refine ⟨.inl none, Alike.refl form, ?_⟩
    intro covers id
    rw [covers id]
    cases rootSelected : selection.rootSelected with
    | true =>
      show _ ↔ id ∈ [form.root]
      rw [highlighted_of_root rootSelected, List.mem_singleton]
      refine ⟨And.right, fun top => ⟨?_, top⟩⟩
      rw [top]
      exact wellFormed.root_stored
    | false =>
      show _ ↔ id ∈ selection.fields.filter form.contains
      rw [highlighted_of_fields rootSelected]
      exact (listed_iff id).symm
  · rename_i some
    have some : selection.fields.filter form.contains ≠ [] := fun none =>
      some (List.isEmpty_iff.mpr none)
    have noRoot := exclusive fun none => some (by rw [none]; rfl)
    split
    · rename_i run found
      obtain ⟨-, perm, block⟩ := wellFormed.run_eq_ok_iff.mp found
      refine ⟨.inr ⟨noRoot, _, _, block⟩, Alike.refl form, fun covers id => ?_⟩
      dsimp only
      rw [covers id, highlighted_of_fields noRoot, noRoot, highlighted_of_fields rfl,
        ← perm.mem_iff]
      exact (listed_iff id).symm
    · refine ⟨fits_empty, unmark_alike, fun covers => marks_empty ?_⟩
      intro id
      rw [isHighlighted_unmark, covers id, highlighted_of_fields noRoot]
      rintro ⟨kept, dropped, -⟩
      exact dropped ((listed_iff id).mpr kept)

/-- What is left of the selected fields stays selected when it is a block. -/
theorem prune_of_block (selection : Selection) (wellFormed : form.WellFormed)
    (block : form.Block parent start (selection.fields.filter form.contains)) :
    selection.prune form =
      ({ selection with fields := selection.fields.filter form.contains }, form) := by
  unfold prune
  dsimp only
  split
  · rfl
  · rename_i some
    have filled : selection.fields.filter form.contains ≠ [] := fun none =>
      some (List.isEmpty_iff.mpr none)
    rw [wellFormed.run_of_block block filled]

/-- What is left of the selected fields was selected before. -/
theorem mem_of_mem_prune (wellFormed : form.WellFormed)
    (listed : id ∈ (selection.prune form).1.fields) : id ∈ selection.fields := by
  unfold prune at listed
  dsimp only at listed
  split at listed
  · exact List.mem_of_mem_filter listed
  · split at listed
    · rename_i run found
      exact List.mem_of_mem_filter ((wellFormed.run_eq_ok_iff.mp found).2.1.mem_iff.mpr listed)
    · cases listed

/-- What was not selected keeps its highlight. -/
theorem isHighlighted_prune (lit : form.isHighlighted id) (outside : id ∉ selection.fields)
    (inner : id ≠ form.root) : (selection.prune form).2.isHighlighted id := by
  unfold prune
  dsimp only
  split
  · exact lit
  · split
    · exact lit
    · exact isHighlighted_unmark.mpr
        ⟨lit, fun listed => outside (List.mem_of_mem_filter listed), fun top => inner top.2⟩

end Selection

end FormEditor
