import FormEditor.Proofs.Editor.Timelines
import FormEditor.Proofs.Form.Calls
import FormEditor.Proofs.Form.Validation

/-!
# Saving and loading

A valid form is saved as a document that describes it, and loading the document gives the form again
without its highlights.  Validity is what every edit keeps, so that no form that the edits lead to
is refused on loading.

Main statement: a valid form comes back from its text with the same root, the same links and the
same entries in the same order (`saving_round_trip`).  This does not depend on the order in which
the fields were listed (`Form.ComesBackAs`).
-/

set_option autoImplicit false

namespace FormEditor.Form

variable {form : Form}

/-- All ids in a well-formed form are those of stored fields. -/
theorem WellFormed.writable (wellFormed : form.WellFormed)
    (keys : ∀ id, form.contains id → id.Writable) : form.Writable where
  root := keys _ wellFormed.root_stored
  keys := keys
  fields := by
    intro id field stored
    refine ⟨?_, fun parent above => ?_, fun child listed => ?_⟩
    · rw [wellFormed.own_id stored]
      exact keys id (contains_of_get? stored)
    · exact keys parent (wellFormed.contains_parent ((parent?_of_get? stored).trans above))
    · rw [← children_of_get? stored] at listed
      exact keys child (wellFormed.contains_child listed)

/-- A form comes back as another from the text that it is saved as, with its fields in the order of
their ids (`saved`) and in any other order (`anyOrder`). -/
structure ComesBackAs (form loaded : Form) : Prop where
  saved : (Json.parse? (form.toJson NodeId.text).compact).map ofJson = some (.ok loaded)
  anyOrder : ∀ entries, entries.Perm form.fields.toList →
    (Json.parse? (form.toJsonInOrder NodeId.text entries).compact).map ofJson = some (.ok loaded)

theorem WellFormed.comesBackAs_dimmed (wellFormed : form.WellFormed)
    (keys : ∀ id, form.contains id → id.Writable) : form.ComesBackAs form.dimmed := by
  have valid : form.dimmed.validate = .ok () :=
    validate_eq_ok_iff.mpr (alike_dimmed.wellFormed wellFormed)
  have anyOrder : ∀ entries, entries.Perm form.fields.toList →
      (Json.parse? (form.toJsonInOrder NodeId.text entries).compact).map ofJson =
        some (.ok form.dimmed) := by
    intro entries order
    have parts := partsOfJson?_toJsonInOrder (wellFormed.writable keys) order
    rw [Json.parse?_compact legible_toJsonInOrder, Option.map_some,
      ofJson_eq_ok_iff.mpr ⟨parts, valid⟩]
  exact ⟨anyOrder form.fields.toList (.refl _), anyOrder⟩

/-- **Saving and loading.**  A valid form comes back from its text with the root, the stored ids,
the links and the entries that it had, and with no highlight; saved and loaded again, it comes back
as it is.  No form that structural edits or whole runs of the editor lead to is refused. -/
theorem saving_round_trip (valid : form.validate = .ok ())
    (writable : ∀ id, form.contains id → id.Writable) :
    (∃ loaded, form.ComesBackAs loaded ∧ loaded.root = form.root ∧
      (∀ id, loaded.get? id = (form.get? id).map fun field => { field with highlighted := false }) ∧
      loaded.ComesBackAs loaded) ∧
    (∀ calls, (∀ call ∈ calls, Call.Admitted call) →
      (∀ id, (form.afterCalls calls).contains id → id.Writable) →
        ∃ loaded, (form.afterCalls calls).ComesBackAs loaded) ∧
    ∀ settings supply operations, (∀ id, form.contains id → id.number < supply.next) →
      Editor.AdmitsAll .links (.ofForm form settings supply) operations →
        let editor := (Editor.ofForm form settings supply).after operations
        (∀ id, editor.form.contains id → id.Writable) →
          ∃ loaded, editor.form.ComesBackAs loaded := by
  have wellFormed := validate_eq_ok_iff.mp valid
  have again : form.dimmed.ComesBackAs form.dimmed.dimmed :=
    (alike_dimmed.wellFormed wellFormed).comesBackAs_dimmed fun id stored =>
      writable id (alike_dimmed.contains_eq ▸ stored)
  rw [dimmed_dimmed] at again
  refine ⟨⟨form.dimmed, wellFormed.comesBackAs_dimmed writable, rfl, fun _ => get?_dimmed, again⟩,
    fun calls admitted writable' => ?_, fun settings supply operations older admitted => ?_⟩
  · exact ⟨_, (wellFormed.afterCalls admitted).comesBackAs_dimmed writable'⟩
  · have known : form.Known .links supply := known_iff.mpr ⟨fun {id} => older id, nofun⟩
    have tracks := (Editor.ofForm_tracks valid known).run admitted
    exact fun writable' => ⟨_, tracks.sound.wellFormed.comesBackAs_dimmed writable'⟩

/-- A highlighted step whose bag repeats a name and holds texts that need escapes comes back with
the same bag and no highlight. -/
theorem saving_round_trip_repeated :
    let bag : Attributes := ⟨[("value", "\"\n"), ("größe", "√2 \x01"), ("value", "")]⟩
    let form := (blankProtocol ⟨7⟩).modifyField ⟨8⟩ fun field =>
      { field with attributes := bag, highlighted := true }
    ∃ loaded, form.ComesBackAs loaded ∧
      loaded.get? ⟨8⟩ = some { Field.fresh ⟨8⟩ bag with parent := some ⟨7⟩ } ∧
        loaded.ComesBackAs loaded := by
  intro bag form
  have writable : form.Writable := writable_of_entries (by decide) (by decide +kernel)
  have stored : form.get? ⟨8⟩ =
      some { Field.fresh ⟨8⟩ bag with parent := some ⟨7⟩, highlighted := true } := by
    decide +kernel
  obtain ⟨loaded, back, -, fields, again⟩ := (saving_round_trip (by decide +kernel) writable.keys).1
  exact ⟨loaded, back, by rw [fields, stored]; rfl, again⟩

end FormEditor.Form
