import FormEditor.Form.Values
import FormEditor.Proofs.Bags
import FormEditor.Proofs.Form.Alike

/-!
# Changes of attributes

An edit of values keeps a list of its changes.  The list fits a form when every change finds the
value that it says was there (`Form.Traces`).  A list that fits can be carried out, then its
reversal fits, and carrying that out leads back.  The list that an edit keeps does more, in any bags
at all: what each change found is what is looked up, and no change writes what it found
(`Form.Logs`).

Forms are compared at two degrees of closeness.  At the level of links, attributes do not count
at all, so that any list of changes of fields that are there fits.  At the level of values, the
bags must have distinct names, and every name must have one value.

Changes and plans are carried out one write after the other, and each write might be refused; but
none is once all the fields are known to be there (`writes_of_present`, `amendEach_of_present`).

Main statements: `Traces.reversal` (the way back fits and leads back), `makes_of_present` (an edit
of values makes the changes that it lists, one after the other), and `amendFields_amends`,
`amendSubtrees_amends` (where names are distinct, its list fits).
-/

set_option autoImplicit false

namespace FormEditor

/-- How closely forms are compared. -/
inductive Closeness where
  /-- Only links count. -/
  | links
  /-- Links count and the values of attributes, whatever their order. -/
  | values

namespace Attributes

/-- What counts of a bag. -/
def shown : Closeness → Attributes → Option (Prop × (String → Option String))
  | .links, _ => none
  | .values, bag => some (bag.Distinct, bag.get?)

/-- As far as values count, the bag has distinct names and a value under a name. -/
def Holds (closeness : Closeness) (bag : Attributes) (name : String) (value : Option String) :
    Prop :=
  closeness = .values → bag.Distinct ∧ bag.get? name = value

variable {closeness : Closeness} {bag other : Attributes} {name : String}
  {before after : Option String}

theorem distinct_iff_of_shown (same : bag.shown .values = other.shown .values) :
    (bag.Distinct ↔ other.Distinct) ∧ bag.get? = other.get? := by
  have parts := Prod.mk.inj (Option.some.inj same)
  exact ⟨Iff.of_eq parts.1, parts.2⟩

theorem Holds.of_shown (holds : bag.Holds closeness name before)
    (same : bag.shown closeness = other.shown closeness) : other.Holds closeness name before := by
  rintro rfl
  obtain ⟨distinct, values⟩ := distinct_iff_of_shown same
  obtain ⟨own, found⟩ := holds rfl
  exact ⟨distinct.mp own, values ▸ found⟩

theorem Holds.assign (holds : bag.Holds closeness name before) :
    (bag.assign name after).Holds closeness name after := by
  intro close
  obtain ⟨distinct, -⟩ := holds close
  exact ⟨distinct.assign, distinct.get?_assign⟩

theorem Holds.shown_assign (holds : bag.Holds closeness name before)
    (same : bag.shown closeness = other.shown closeness) :
    (bag.assign name after).shown closeness = (other.assign name after).shown closeness := by
  cases closeness with
  | links => rfl
  | values =>
    obtain ⟨distinct, values⟩ := distinct_iff_of_shown same
    obtain ⟨own, -⟩ := holds rfl
    have further := distinct.mp own
    have found : (bag.assign name after).get? = (other.assign name after).get? := by
      funext key
      by_cases here : key = name
      · rw [here, own.get?_assign, further.get?_assign]
      · rw [get?_assign_of_ne here, get?_assign_of_ne here, values]
    show some (_, _) = some (_, _)
    rw [found, eq_true own.assign, eq_true further.assign]

/-- Writing the previous value back restores all that counts. -/
theorem Holds.shown_assign_assign (holds : bag.Holds closeness name before) :
    ((bag.assign name after).assign name before).shown closeness = bag.shown closeness := by
  cases closeness with
  | links => rfl
  | values =>
    obtain ⟨distinct, found⟩ := holds rfl
    show some (_, _) = some (_, _)
    rw [← found, distinct.get?_assign_assign, eq_true distinct, eq_true distinct.assign.assign]

end Attributes

/-- The change that takes a change back. -/
def Change.back (change : Change) : Change :=
  { change with before := change.after, after := change.before }

namespace Form

variable {closeness : Closeness} {form left right : Form} {id other : NodeId} {name : String}
  {value before after : Option String} {changes further : List Change} {ids : List NodeId}

/-- As far as values count, all bags of the form have distinct names. -/
def Legible (closeness : Closeness) (form : Form) : Prop :=
  closeness = .values → ∀ (id : NodeId) (field : Field),
    form.get? id = some field → field.attributes.Distinct

/-- A field is in the form and, as far as values count, has a value under a name. -/
def Shows (closeness : Closeness) (form : Form) (id : NodeId) (name : String)
    (value : Option String) : Prop :=
  ∃ field, form.get? id = some field ∧ field.attributes.Holds closeness name value

/-- The form after changes have been carried out. -/
def rewritten (form : Form) (changes : List Change) : Form :=
  changes.foldl (fun form change => form.assign change.node change.name change.after) form

/-- Every change of the list finds the value that it says was there. -/
def Traces (closeness : Closeness) (form : Form) : List Change → Prop
  | [] => True
  | change :: changes =>
    form.Shows closeness change.node change.name change.before ∧
      (form.assign change.node change.name change.after).Traces closeness changes

/-- A field is in the form, and this is what is looked up in it under a name. -/
def Reads (form : Form) (id : NodeId) (name : String) (value : Option String) : Prop :=
  ∃ field, form.get? id = some field ∧ field.attributes.get? name = value

/-- Every change of the list finds what it says was there, and writes something else. -/
def Logs (form : Form) : List Change → Prop
  | [] => True
  | change :: changes =>
    change.before ≠ change.after ∧ form.Reads change.node change.name change.before ∧
      (form.assign change.node change.name change.after).Logs changes

/-! ## One assignment -/

theorem get?_assign :
    (form.assign id name value).get? other =
      if other = id then
        (form.get? other).map fun field =>
          { field with attributes := field.attributes.assign name value }
      else form.get? other :=
  get?_modifyField

/-- Attributes do not count for links. -/
theorem Alike.assign_links :
    (form.assign id name value).Alike (Attributes.shown .links) form :=
  Alike.modifyField_left fun _ => rfl

theorem Alike.legible (alike : left.Alike (Attributes.shown closeness) right)
    (legible : left.Legible closeness) : right.Legible closeness := by
  rintro rfl id field stored
  obtain ⟨field', stored', seen⟩ := alike.symm.exists_get? stored
  have same : field.attributes.shown .values = field'.attributes.shown .values :=
    congrArg (fun parts => parts.2.2.2) seen
  exact (Attributes.distinct_iff_of_shown same).1.mpr (legible rfl id field' stored')

theorem Alike.shows (alike : left.Alike (Attributes.shown closeness) right)
    (shows : left.Shows closeness id name value) : right.Shows closeness id name value := by
  obtain ⟨field, stored, holds⟩ := shows
  obtain ⟨field', stored', seen⟩ := alike.exists_get? stored
  exact ⟨field', stored', holds.of_shown (congrArg (fun parts => parts.2.2.2) seen)⟩

theorem Alike.assign (alike : left.Alike (Attributes.shown closeness) right)
    (shows : left.Shows closeness id name before) :
    (left.assign id name value).Alike (Attributes.shown closeness)
      (right.assign id name value) := by
  obtain ⟨field, stored, holds⟩ := shows
  obtain ⟨field', stored', seen⟩ := alike.exists_get? stored
  refine ⟨alike.1, ?_⟩
  intro key
  rw [get?_assign, get?_assign]
  split
  · rename_i here
    subst here
    simp only [Field.seen, Prod.mk.injEq] at seen
    obtain ⟨same, parents, listed, bags⟩ := seen
    rw [stored, stored']
    simp only [Option.map_some, Field.seen]
    rw [same, parents, listed, holds.shown_assign bags]
  · exact alike.2 key

theorem Shows.assign (shows : form.Shows closeness id name before) :
    (form.assign id name after).Shows closeness id name after := by
  obtain ⟨field, stored, holds⟩ := shows
  refine ⟨{ field with attributes := field.attributes.assign name after }, ?_, holds.assign⟩
  rw [get?_assign, if_pos rfl, stored]
  rfl

/-- Writing the previous value back leaves a form that looks as before. -/
theorem Shows.assign_assign (shows : form.Shows closeness id name before) :
    ((form.assign id name after).assign id name before).Alike (Attributes.shown closeness)
      form := by
  obtain ⟨field, stored, holds⟩ := shows
  refine ⟨rfl, ?_⟩
  intro key
  rw [get?_assign, get?_assign]
  split
  · rename_i here
    subst here
    rw [stored]
    simp only [Option.map_some, Field.seen]
    rw [holds.shown_assign_assign]
  · rfl

theorem Legible.assign (legible : form.Legible closeness) :
    (form.assign id name value).Legible closeness := by
  intro close key field stored
  rw [get?_assign] at stored
  split at stored
  · obtain ⟨kept, found, changed⟩ := Option.map_eq_some_iff.mp stored
    rw [← changed]
    exact (legible close key kept found).assign
  · exact legible close key field stored

theorem Legible.shows_of_reads (legible : form.Legible closeness)
    (reads : form.Reads id name value) : form.Shows closeness id name value := by
  obtain ⟨field, stored, rfl⟩ := reads
  exact ⟨field, stored, fun close => ⟨legible close id field stored, rfl⟩⟩

/-! ## Lists of changes -/

theorem traces_cons {change : Change} :
    form.Traces closeness (change :: changes) ↔
      form.Shows closeness change.node change.name change.before ∧
        (form.assign change.node change.name change.after).Traces closeness changes :=
  Iff.rfl

theorem traces_append :
    form.Traces closeness (changes ++ further) ↔
      form.Traces closeness changes ∧ (form.rewritten changes).Traces closeness further := by
  induction changes generalizing form with
  | nil => exact (and_iff_right trivial).symm
  | cons change changes ih =>
    rw [List.cons_append, traces_cons, traces_cons, ih, and_assoc]
    rfl

theorem rewritten_append :
    form.rewritten (changes ++ further) = (form.rewritten changes).rewritten further :=
  List.foldl_append

theorem rewritten_links : (form.rewritten changes).Alike (Attributes.shown .links) form := by
  induction changes generalizing form with
  | nil => exact Alike.refl form
  | cons change changes ih => exact ih.trans Alike.assign_links

theorem Legible.rewritten (legible : form.Legible closeness) :
    (form.rewritten changes).Legible closeness := by
  induction changes generalizing form with
  | nil => exact legible
  | cons change changes ih => exact ih legible.assign

theorem logs_cons {change : Change} :
    form.Logs (change :: changes) ↔
      change.before ≠ change.after ∧ form.Reads change.node change.name change.before ∧
        (form.assign change.node change.name change.after).Logs changes :=
  Iff.rfl

theorem logs_append :
    form.Logs (changes ++ further) ↔
      form.Logs changes ∧ (form.rewritten changes).Logs further := by
  induction changes generalizing form with
  | nil => exact (and_iff_right trivial).symm
  | cons change changes ih =>
    rw [List.cons_append, logs_cons, logs_cons, ih, and_assoc, and_assoc]
    rfl

/-- In bags with distinct names, a list that tells what is looked up fits. -/
theorem Logs.traces (logs : form.Logs changes) (legible : form.Legible closeness) :
    form.Traces closeness changes := by
  induction changes generalizing form with
  | nil => trivial
  | cons change changes ih =>
    obtain ⟨-, reads, rest⟩ := logs
    exact ⟨legible.shows_of_reads reads, ih rest legible.assign⟩

theorem Alike.traces (alike : left.Alike (Attributes.shown closeness) right)
    (traces : left.Traces closeness changes) :
    right.Traces closeness changes ∧
      (left.rewritten changes).Alike (Attributes.shown closeness) (right.rewritten changes) := by
  induction changes generalizing left right with
  | nil => exact ⟨trivial, alike⟩
  | cons change changes ih =>
    obtain ⟨shows, rest⟩ := traces
    obtain ⟨later, same⟩ := ih (alike.assign shows) rest
    exact ⟨⟨alike.shows shows, later⟩, same⟩

/-- **The way back fits and leads back.** -/
theorem Traces.reversal (traces : form.Traces closeness changes) :
    (form.rewritten changes).Traces closeness (changes.reverse.map Change.back) ∧
      ((form.rewritten changes).rewritten (changes.reverse.map Change.back)).Alike
        (Attributes.shown closeness) form := by
  induction changes generalizing form with
  | nil => exact ⟨trivial, Alike.refl form⟩
  | cons change changes ih =>
    obtain ⟨shows, rest⟩ := traces
    obtain ⟨later, same⟩ := ih rest
    have last : (form.assign change.node change.name change.after).Shows closeness change.node
        change.name change.after := shows.assign
    have here := same.symm.shows last
    have back : (((form.assign change.node change.name change.after).rewritten changes).rewritten
        (changes.reverse.map Change.back)).assign change.node change.name change.before |>.Alike
          (Attributes.shown closeness) ((form.assign change.node change.name change.after).assign
            change.node change.name change.before) := same.assign here
    rw [List.reverse_cons, List.map_append]
    refine ⟨traces_append.mpr ⟨later, here, trivial⟩, ?_⟩
    rw [rewritten_append]
    exact back.trans shows.assign_assign

/-! ## Carrying changes out -/

theorem checkPresent_eq_ok (present : ∀ id ∈ ids, form.contains id) :
    form.checkPresent ids = .ok () := by
  refine Question.forM_eq_ok_iff.mpr ?_
  intro id listed
  obtain ⟨field, stored⟩ := contains_iff.mp (present id listed)
  rw [field_of_get? stored]
  rfl

/-- Either all the fields are there, or the check names one that is not. -/
theorem checkPresent_cases (form : Form) (ids : List NodeId) :
    (∃ id ∈ ids, ¬ form.contains id ∧ form.checkPresent ids = .error (.nodeNotFound id)) ∨
      (∀ id ∈ ids, form.contains id) := by
  induction ids with
  | nil => exact .inr fun _ listed => nomatch listed
  | cons id ids ih =>
    have unfolded : form.checkPresent (id :: ids) =
        (discard (form.field id) >>= fun _ => form.checkPresent ids) := rfl
    by_cases here : form.contains id
    · obtain ⟨field, stored⟩ := contains_iff.mp here
      rw [field_of_get? stored] at unfolded
      rcases ih with ⟨other, listed, missing, refused⟩ | present
      · exact .inl ⟨other, List.mem_cons_of_mem id listed, missing, unfolded.trans refused⟩
      · exact .inr (List.forall_mem_cons.mpr ⟨here, present⟩)
    · rw [field_of_not_contains here] at unfolded
      exact .inl ⟨id, List.mem_cons_self, here, unfolded⟩

theorem checkPresent_eq_ok_iff :
    form.checkPresent ids = .ok () ↔ ∀ id ∈ ids, form.contains id := by
  constructor
  · intro checked
    rcases form.checkPresent_cases ids with ⟨id, -, -, refused⟩ | present
    · cases checked.symm.trans refused
    · exact present
  · exact checkPresent_eq_ok

theorem checkPresent_nodes_eq_ok_iff :
    form.checkPresent (changes.map Change.node) = .ok () ↔
      ∀ change ∈ changes, form.contains change.node := by
  rw [checkPresent_eq_ok_iff, List.forall_mem_map]

theorem Traces.present (traces : form.Traces closeness changes) {change : Change}
    (listed : change ∈ changes) : form.contains change.node := by
  induction changes generalizing form with
  | nil => cases listed
  | cons first changes ih =>
    obtain ⟨⟨field, stored, -⟩, rest⟩ := traces
    rcases List.mem_cons.mp listed with rfl | listed
    · exact contains_of_get? stored
    · have found := ih rest listed
      rwa [show (form.assign _ _ _).contains _ = form.contains _ from contains_modifyField] at found

theorem write_of_present (present : form.contains id) :
    write id name value form = .ok () (form.assign id name value) := by
  obtain ⟨field, stored⟩ := contains_iff.mp present
  unfold write
  rw [Step.bind_of_ok (Edit.ask_of_ok (field_of_get? stored))]
  rfl

/-- No change is refused once the fields of all of them are known to be there, since writing keeps
every field in the form. -/
theorem writes_of_present (present : ∀ change ∈ changes, form.contains change.node) :
    changes.forM (fun change => write change.node change.name change.after) form =
      .ok () (form.rewritten changes) := by
  induction changes generalizing form with
  | nil => rfl
  | cons change changes ih =>
    obtain ⟨here, later⟩ := List.forall_mem_cons.mp present
    rw [List.forM_eq_forM, List.forM_cons, Step.bind_of_ok (write_of_present here)]
    refine ih fun other listed => ?_
    show (form.modifyField _ _).contains _
    rw [contains_modifyField]
    exact later other listed

/-- Writing the values before the changes, the last one first, is carrying their reversal out. -/
theorem unwrites_of_present (present : ∀ change ∈ changes, form.contains change.node) :
    changes.reverse.forM (fun change => write change.node change.name change.before) form =
      .ok () (form.rewritten (changes.reverse.map Change.back)) := by
  have reversed : ∀ change ∈ changes.reverse.map Change.back, form.contains change.node :=
    List.forall_mem_map.mpr fun change listed => present change (List.mem_reverse.mp listed)
  have written := writes_of_present reversed
  rw [List.forM_eq_forM, List.forM_map] at written
  exact written

theorem Traces.applyChanges_eq (traces : form.Traces closeness changes) :
    applyChanges changes form = .ok () (form.rewritten changes) := by
  have present : ∀ change ∈ changes, form.contains change.node := fun _ => traces.present
  unfold applyChanges
  rw [Step.bind_of_ok (Edit.ask_of_ok (checkPresent_nodes_eq_ok_iff.mpr present))]
  exact writes_of_present present

theorem Traces.revertChanges_eq
    (traces : form.Traces closeness (changes.reverse.map Change.back)) :
    revertChanges changes form = .ok () (form.rewritten (changes.reverse.map Change.back)) := by
  have present : ∀ change ∈ changes, form.contains change.node := by
    intro change listed
    have reversed := List.mem_map_of_mem (f := Change.back) (List.mem_reverse.mpr listed)
    have stored : form.contains change.back.node := traces.present reversed
    exact stored
  unfold revertChanges
  rw [Step.bind_of_ok (Edit.ask_of_ok (checkPresent_nodes_eq_ok_iff.mpr present))]
  exact unwrites_of_present present

/-! ## Carrying plans out -/

theorem amendBag_logs {field : Field} (stored : form.get? id = some field)
    {plan : List Assignment} {bag : Attributes}
    (amended : amendBag id field.attributes plan = (changes, bag)) :
    form.Logs changes ∧
      form.modifyField id (fun field => { field with attributes := bag }) =
        form.rewritten changes := by
  induction plan generalizing form field changes with
  | nil =>
    cases amended
    refine ⟨trivial, ext_get? rfl ?_⟩
    intro key
    rw [get?_modifyField]
    split
    · rename_i here
      subst here
      exact (congrArg _ stored).trans stored.symm
    · rfl
  | cons assignment plan ih =>
    obtain ⟨name, after⟩ := assignment
    unfold amendBag at amended
    split at amended
    · exact ih stored amended
    · rename_i differs
      have stored' : (form.assign id name after).get? id =
          some { field with attributes := field.attributes.assign name after } := by
        rw [get?_assign, if_pos rfl, stored]
        rfl
      dsimp only at amended
      cases rest : amendBag id (field.attributes.exchange name after).2 plan with
      | mk made bag' =>
        rw [rest] at amended
        cases amended
        obtain ⟨logs, same⟩ := ih stored' rest
        rw [Attributes.exchange_fst]
        refine ⟨⟨differs, ⟨field, stored, rfl⟩, logs⟩, ?_⟩
        have both : form.modifyField id (fun field => { field with attributes := bag' }) =
            (form.assign id name after).modifyField id
              (fun field => { field with attributes := bag' }) := by
          refine ext_get? rfl ?_
          intro key
          rw [get?_modifyField, get?_modifyField, get?_assign]
          split
          · rw [Option.map_map]
            rfl
          · rfl
        exact both.trans same

/-- Carrying a plan out makes the changes that are listed, one after the other. -/
theorem amend_logs {plan : Field → List Assignment}
    (amended : form.amend plan ids = (changes, left)) :
    form.Logs changes ∧ left = form.rewritten changes := by
  induction ids generalizing form changes with
  | nil =>
    cases amended
    exact ⟨trivial, rfl⟩
  | cons id ids ih =>
    unfold amend at amended
    cases stored : form.get? id with
    | none =>
      rw [stored] at amended
      exact ih amended
    | some field =>
      rw [stored] at amended
      dsimp only at amended
      cases first : amendBag id field.attributes (plan field) with
      | mk made bag =>
        rw [first] at amended
        obtain ⟨logs, same⟩ := amendBag_logs stored first
        dsimp only at amended
        rw [same] at amended
        cases rest : (form.rewritten made).amend plan ids with
        | mk later last =>
          rw [rest] at amended
          cases amended
          obtain ⟨further, done⟩ := ih rest
          exact ⟨logs_append.mpr ⟨logs, further⟩, done.trans rewritten_append.symm⟩

/-- An edit of values makes the changes that it lists, one after the other. -/
def Makes (form : Form) (edit : Edit (List Change)) : Prop :=
  ∃ changes, edit form = .ok changes (form.rewritten changes) ∧ form.Logs changes

/-- An edit of values makes the changes that it lists, and they fit. -/
def Amends (closeness : Closeness) (form : Form) (edit : Edit (List Change)) : Prop :=
  ∃ changes, edit form = .ok changes (form.rewritten changes) ∧ form.Traces closeness changes

theorem Makes.amends {edit : Edit (List Change)} (makes : form.Makes edit)
    (legible : form.Legible closeness) : form.Amends closeness edit := by
  obtain ⟨changes, done, logs⟩ := makes
  exact ⟨changes, done, logs.traces legible⟩

/-- Once all the given fields are there, a plan is carried out for the fields that it is for. -/
theorem amend_of_present {targets : Form → List NodeId} {plan : Field → List Assignment}
    (present : ∀ id ∈ ids, form.contains id) :
    (do
      Edit.ask fun form => form.checkPresent ids
      modifyGet fun form => form.amend plan (targets form) : Edit (List Change)) form =
      .ok (form.amend plan (targets form)).1 (form.amend plan (targets form)).2 := by
  rw [Step.bind_of_ok (Edit.ask_of_ok (checkPresent_eq_ok present))]
  rfl

theorem makes_of_present {targets : Form → List NodeId} {plan : Field → List Assignment}
    (present : ∀ id ∈ ids, form.contains id) :
    form.Makes (do
      Edit.ask fun form => form.checkPresent ids
      modifyGet fun form => form.amend plan (targets form)) := by
  obtain ⟨logs, same⟩ := amend_logs (Prod.eta (form.amend plan (targets form))).symm
  refine ⟨_, ?_, logs⟩
  rw [← same]
  exact amend_of_present present

theorem amendFields_amends (legible : form.Legible closeness)
    (present : ∀ id ∈ ids, form.contains id) {plan : Field → List Assignment} :
    form.Amends closeness (amendFields ids plan) :=
  (makes_of_present present).amends legible

theorem amendSubtrees_amends (legible : form.Legible closeness)
    (present : ∀ id ∈ ids, form.contains id) {plan : Field → List Assignment} :
    form.Amends closeness (amendSubtrees ids plan) :=
  (makes_of_present present).amends legible

/-- Carrying a plan out for fields that are all there refuses none of them. -/
theorem amendEach_of_present {plan : Field → List Assignment}
    (present : ∀ id ∈ ids, form.contains id) :
    amendEach plan ids form = .ok (form.amend plan ids).1 (form.amend plan ids).2 := by
  induction ids generalizing form with
  | nil => rfl
  | cons id ids ih =>
    obtain ⟨here, later⟩ := List.forall_mem_cons.mp present
    obtain ⟨field, stored⟩ := contains_iff.mp here
    have still : ∀ other ∈ ids, (form.modifyField id fun found =>
        { found with attributes := (amendBag id field.attributes (plan field)).2 }).contains
          other := by
      intro other listed
      rw [contains_modifyField]
      exact later other listed
    unfold amendEach amend
    rw [Step.bind_of_ok (Edit.ask_of_ok (field_of_get? stored)), stored]
    dsimp only
    rw [Step.modify_bind, Step.bind_of_ok (ih still)]
    rfl

/-- Multiplying is an edit by a plan, since its check lets no missing field through. -/
theorem multiplyValues_eq (ids : List NodeId) (factor : Binary64) :
    multiplyValues ids factor = amendFields ids (scaling factor) := by
  funext form
  unfold multiplyValues amendFields
  rw [Edit.ask_bind, Edit.ask_bind]
  cases checked : form.checkPresent ids with
  | error fault => rfl
  | ok _ => exact amendEach_of_present (checkPresent_eq_ok_iff.mp checked)

/-- Writing an attribute of a field that is not there is refused. -/
theorem setAttribute_of_missing {id : NodeId} (missing : ¬ form.contains id) :
    setAttribute id name value form = .error (.nodeNotFound id) form := by
  have refused : form.checkPresent [id] = .error (.nodeNotFound id) := by
    show (discard (form.field id) >>= fun _ => _) = _
    rw [field_of_not_contains missing]
    rfl
  unfold setAttribute amendFields
  exact Step.bind_of_error (Edit.ask_of_error refused)

end Form

end FormEditor
