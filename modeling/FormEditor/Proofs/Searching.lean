import FormEditor.Editor.Queries
import FormEditor.Proofs.Form.Outlines
import FormEditor.Proofs.Form.WellFormed
import FormEditor.Proofs.Text.Sigmas

/-!
# Searching

A search lists the fields that mention a word, in document order and each once.  Word and values are
lowered before they are compared, each as a whole.  So a value may hold a word just as it is written
and the search may still miss it, if a capital sigma ends the word and does not end a word of the
value, or the other way round.

Main statement: `Editor.search_law` gives the exact condition under which a word is never missed.
-/

set_option autoImplicit false

namespace FormEditor

variable {word : String} {payload : Payload} {entry : String × String}

/-- A word stands in a text just as it is written. -/
def Text.Writes (text word : String) : Prop := word.toList <:+: text.toList

/-- None of the capital sigmas of a word is exposed to what surrounds the word. -/
def Text.Sheltered (word : String) : Prop := ∀ spot ∈ sigmas word.toList, spot.isExposed = false

namespace Payload

theorem mentions_of_entry (listed : entry ∈ payload.attributes.entries)
    (found : Text.lowerChars word.toList <:+: Text.lowerChars entry.2.toList) :
    payload.mentions word := by
  unfold mentions
  rw [List.any_eq_true]
  exact ⟨entry, listed, Text.occursIn_iff.mpr found⟩

/-- **Exactly the words without an exposed sigma are mentioned wherever they are written.** -/
theorem mentions_written_iff :
    (∀ payload : Payload, ∀ entry ∈ payload.attributes.entries,
      Text.Writes entry.2 word → payload.mentions word) ↔ Text.Sheltered word := by
  refine Iff.trans ?_ Text.found_iff_not_exposed
  constructor
  · intro mentioned front back
    let value := String.ofList (front ++ word.toList ++ back)
    have written : Text.Writes value word := ⟨front, back, (String.toList_ofList).symm⟩
    have found := mentioned { attributes := ⟨[("", value)]⟩ } ("", value) List.mem_cons_self written
    unfold mentions at found
    rw [List.any_eq_true] at found
    obtain ⟨entry, listed, found⟩ := found
    rw [List.mem_singleton.mp listed] at found
    have found := Text.occursIn_iff.mp found
    rwa [String.toList_ofList] at found
  · rintro found payload entry listed ⟨front, back, written⟩
    exact mentions_of_entry listed (written ▸ found front back)

end Payload

namespace Editor

variable {editor : Editor}

/-- What a search lists. -/
structure Finds (editor : Editor) (word : String) (ids : List NodeId) : Prop where
  /-- Document order. -/
  ordered : ids.Sublist (editor.form.preorder.map Field.id)
  once : ids.Nodup
  /-- A field is listed if one of its values holds the word when case is ignored. -/
  listed : ∀ id field, editor.form.get? id = some field → (id ∈ ids ↔ field.payload.mentions word)

theorem finds_search (valid : editor.form.validate = .ok ()) :
    editor.Finds word (editor.search word) := by
  have wellFormed := Form.validate_eq_ok_iff.mp valid
  have part : (editor.search word).Sublist (editor.form.preorder.map Field.id) :=
    List.filter_sublist.map Field.id
  refine ⟨part, part.nodup (wellFormed.nodup_preorderFrom .here), fun id field stored => ?_⟩
  unfold search
  rw [List.mem_map]
  constructor
  · rintro ⟨other, met, rfl⟩
    obtain ⟨walked, mentioned⟩ := List.mem_filter.mp met
    have found := (wellFormed.mem_descendants.mp walked).1
    rwa [Option.some.inj (stored.symm.trans found)]
  · intro mentioned
    exact ⟨field, List.mem_filter.mpr ⟨wellFormed.mem_preorder stored, mentioned⟩,
      wellFormed.own_id stored⟩

/-- **What a search finds.**  In a valid form it lists the fields that mention a word, in document
order and each once.  A word is mentioned wherever it is written exactly if none of its capital
sigmas is exposed.  An exposed one is still found in each value that holds the word at a place where
its sigmas end words, or not, as they do when the word stands by itself. -/
theorem search_law (valid : editor.form.validate = .ok ()) :
    (∀ word : String, (∀ payload : Payload, ∀ entry ∈ payload.attributes.entries,
      Text.Writes entry.2 word → payload.mentions word) ↔ Text.Sheltered word) ∧
    ∀ word, editor.Finds word (editor.search word) ∧
      ∀ id field, editor.form.get? id = some field → ∀ entry ∈ field.attributes.entries,
        ∀ front back, entry.2.toList = front ++ word.toList ++ back →
          Text.Sheltered word ∨ Text.ReadsAlike front word.toList back →
            id ∈ editor.search word := by
  refine ⟨fun word => Payload.mentions_written_iff, fun word => ⟨finds_search valid, ?_⟩⟩
  intro id field stored entry listed front back written readable
  refine ((finds_search valid).listed id field stored).mpr ?_
  rcases readable with sheltered | alike
  · exact Payload.mentions_written_iff.mpr sheltered field.payload entry listed
      ⟨front, back, written.symm⟩
  · exact Payload.mentions_of_entry listed (written ▸ Text.found_of_readsAlike alike)

/-- A word that ends in a capital sigma is found where the sigma ends a word of the value as well,
although it is also written within another word. -/
theorem search_law_ending :
    let form := (Branch.ofOutline ⟨10⟩ (.node .empty
      [.node ⟨[("value", "ΑΣΑ ΤΑΣ")]⟩ []])).toForm
    ⟨11⟩ ∈ (ofForm form {} ⟨12⟩).search "ΑΣ" := by
  intro form
  have valid : form.validate = .ok () := by decide +kernel
  obtain ⟨field, stored⟩ := Form.contains_iff.mp
    (show form.contains ⟨11⟩ by decide +kernel)
  have bag : (form.get? ⟨11⟩).map Field.attributes = some ⟨[("value", "ΑΣΑ ΤΑΣ")]⟩ := by
    decide +kernel
  rw [stored, Option.map_some, Option.some.injEq] at bag
  have alike : Text.ReadsAlike "ΑΣΑ Τ".toList "ΑΣ".toList [] := by
    show ∀ spot ∈ Text.sigmas _, _
    decide +kernel
  obtain ⟨-, finds⟩ := @search_law (ofForm form {} ⟨12⟩) valid
  exact (finds "ΑΣ").2 ⟨11⟩ field stored ("value", "ΑΣΑ ΤΑΣ") (bag ▸ List.mem_cons_self)
    "ΑΣΑ Τ".toList [] (by decide) (.inr alike)

/-- A value holds a word, and the search for that word does not find it: within the value, the sigma
does not end a word. -/
theorem search_misses :
    let form := (Branch.ofOutline ⟨10⟩ (.node ⟨[("value", "ΑΣΑ")]⟩ [])).toForm
    form.validate = .ok () ∧
      (form.get? ⟨10⟩).map Field.attributes = some ⟨[("value", "ΑΣΑ")]⟩ ∧
      Text.Writes "ΑΣΑ" "ΑΣ" ∧ (ofForm form {} ⟨11⟩).search "ΑΣ" = [] := by
  intro form
  exact ⟨by decide +kernel, by decide +kernel, ⟨[], ['Α'], by decide⟩, by decide +kernel⟩

end Editor

end FormEditor
