import FormEditor.Proofs.Undoing

/-!
# What the list of changes tells

The list that an edit of values keeps is all that is known of the edit afterwards.  It tells the
whole of it, in any form and whatever the bags look like: carrying the list out on the form that was
edited gives the form that the edit has left, to the order of the entries.

One edit may write an attribute of a field several times, when a field or a name is given to it more
than once.  Each change then tells what is there after the changes before it
(`Form.Logs.change_at`), and never that a value became what it was.  Whatever the list does not name
is as it was: links, highlights, and the entries of all other names (`Field.apart`).

Main statement: `ValueEdit.log_law`.
-/

set_option autoImplicit false

namespace FormEditor

variable {form : Form} {id : NodeId} {changes earlier later : List Change} {change : Change}

/-! ## What a list does not name -/

/-- The names that changes of a field are about. -/
def Change.namesOf (id : NodeId) (changes : List Change) : List String :=
  (Change.ofField id changes).map Change.name

/-- The field without the entries of some names. -/
def Field.apart (names : List String) (field : Field) : Field :=
  { field with attributes := field.attributes.apart names }

theorem Attributes.apart_rewritten {bag : Attributes} {names : List String}
    (named : ∀ change ∈ changes, change.name ∈ names) :
    (bag.rewritten changes).apart names = bag.apart names := by
  induction changes generalizing bag with
  | nil => rfl
  | cons change changes ih =>
    obtain ⟨here, later⟩ := List.forall_mem_cons.mp named
    exact (ih later).trans (apart_assign here)

namespace Form

/-- Changes leave links, highlights and the entries of all names that they are not about. -/
theorem apart_rewritten :
    ((form.rewritten changes).get? id).map (Field.apart (Change.namesOf id changes)) =
      (form.get? id).map (Field.apart (Change.namesOf id changes)) := by
  have named : ∀ change ∈ Change.ofField id changes, change.name ∈ Change.namesOf id changes :=
    fun _ listed => List.mem_map_of_mem listed
  rw [get?_rewritten, Option.map_map]
  congr 1
  funext field
  show { field with
    attributes := (field.attributes.rewritten (Change.ofField id changes)).apart _ } = _
  rw [Attributes.apart_rewritten named]
  rfl

/-! ## What a list tells -/

/-- A list of changes that were made one after the other can be carried out. -/
theorem Logs.applyChanges_eq (logs : form.Logs changes) :
    applyChanges changes form = .ok () (form.rewritten changes) := by
  have legible : form.Legible .links := fun values => nomatch values
  exact (logs.traces legible).applyChanges_eq

/-- Each change tells what is there once those before it have been made. -/
theorem Logs.change_at (logs : form.Logs (earlier ++ change :: later)) :
    change.before ≠ change.after ∧ ∃ middle,
      applyChanges earlier form = .ok () middle ∧
        middle.Reads change.node change.name change.before := by
  obtain ⟨before, differs, reads, -⟩ := logs_append.mp logs
  exact ⟨differs, _, before.applyChanges_eq, reads⟩

end Form

namespace ValueEdit

theorem refused {fault : Fault} (edit : ValueEdit)
    (refused : form.checkPresent edit.targets = .error fault) :
    edit.perform form = .error fault form := by
  cases edit <;> exact Step.bind_of_error (Edit.ask_of_error refused)

/-- **The list of changes tells the whole edit.**  An edit of values is refused because of a field
that is missing, and leaves the form alone.  Or it gives a list with which its outcome can be had
again from the form before, exactly; each change in it tells what was read just before it was made,
and that something else was written; links, highlights and the entries of all names that are not in
it are as before; and an empty list means that nothing has changed. -/
theorem log_law (form : Form) (edit : ValueEdit) :
    (∃ id ∈ edit.targets, ¬ form.contains id ∧
      edit.perform form = .error (.nodeNotFound id) form) ∨
    (∀ id ∈ edit.targets, form.contains id) ∧ ∃ changes after,
      edit.perform form = .ok changes after ∧
      Form.applyChanges changes form = .ok () after ∧
      (∀ earlier change later, changes = earlier ++ change :: later →
        change.before ≠ change.after ∧ ∃ middle,
          Form.applyChanges earlier form = .ok () middle ∧
            middle.Reads change.node change.name change.before) ∧
      after.root = form.root ∧
      (∀ id, (after.get? id).map (Field.apart (Change.namesOf id changes)) =
        (form.get? id).map (Field.apart (Change.namesOf id changes))) ∧
      (changes = [] → after = form) := by
  rcases form.checkPresent_cases edit.targets with ⟨id, listed, missing, refused⟩ | present
  · exact .inl ⟨id, listed, missing, edit.refused refused⟩
  · obtain ⟨changes, done, logs⟩ := edit.makes present
    refine .inr ⟨present, changes, _, done, logs.applyChanges_eq, ?_, Form.root_rewritten,
      fun id => Form.apart_rewritten, ?_⟩
    · rintro earlier change later rfl
      exact logs.change_at
    · rintro rfl
      rfl

/-- A field that is given twice is locked once, with a name that is written twice. -/
example : (match Form.lockFields [⟨11⟩, ⟨11⟩] [("lockLevel", "a"), ("lockLevel", "b")] 7
      (holding [("x", "1")]) with
    | .ok changes _ => changes.map fun change => (change.name, change.before, change.after)
    | .error _ _ => []) =
      [("lockedFieldUTC", none, some "7"), ("lockLevel", none, some "a"),
        ("lockLevel", some "a", some "b"), ("lockLevel", some "b", some "a"),
        ("lockLevel", some "a", some "b")] := by
  decide +kernel

end ValueEdit

end FormEditor
