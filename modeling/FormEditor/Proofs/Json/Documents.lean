import FormEditor.Json.Reader
import FormEditor.Proofs.Json.Tokens
import Mathlib.Data.List.Nodup

/-!
# Reading written documents

A document is read back from its tokens, inside whatever lists and records are open around it
(`read_tokens`).  Together with the splitting into tokens: a legible document is read from every
text that spells it (`parse?_of_spelled`), as from how it is written without blanks
(`parse?_compact`).

Fixed data is found again in the record that it was written as (`shape?_ofMembers`).
-/

set_option autoImplicit false

namespace FormEditor.Json

/-! ## From tokens to a document -/

/-- The first item of a list is read like any other. -/
theorem read_firstItem (document : Json) (outer : List Frame) (rest : List Token) :
    (document.tokens ++ rest).foldlM ReaderState.next? (.firstItem outer) =
      (document.tokens ++ rest).foldlM ReaderState.next? (.value (.list [] :: outer)) := by
  cases document <;> rfl

theorem exists_itemTokens_eq (item : Json) (items : List Json) :
    ∃ later, itemTokens (item :: items) = item.tokens ++ later := by
  cases items with
  | nil => exact ⟨[], (List.append_nil _).symm⟩
  | cons next items => exact ⟨_, rfl⟩

mutual
/-- A document is read from its tokens. -/
theorem read_tokens : ∀ (document : Json) (outer : List Frame) (rest : List Token),
    (document.tokens ++ rest).foldlM ReaderState.next? (.value outer) =
      rest.foldlM ReaderState.next? (.complete outer document)
  | .null, _, _ | .bool _, _, _ | .number _, _, _ | .text _, _, _ => rfl
  | .list [], _, _ => rfl
  | .list (item :: items), outer, rest => by
    have inner := read_itemTokens (item :: items) [] outer rest (List.cons_ne_nil item items)
    obtain ⟨later, first⟩ := exists_itemTokens_eq item items
    rw [first, List.append_assoc, ← read_firstItem, ← List.append_assoc, ← first] at inner
    have opened : (list (item :: items)).tokens ++ rest =
        .openList :: (itemTokens (item :: items) ++ .closeList :: rest) := by simp [tokens]
    rw [opened]
    exact inner
  | .record [], _, _ => rfl
  | .record (member :: members), outer, rest => by
    have inner := read_memberTokens (member :: members) [] outer rest
      (List.cons_ne_nil member members)
    have opened : (record (member :: members)).tokens ++ rest =
        .openRecord :: (memberTokens (member :: members) ++ .closeRecord :: rest) := by
      simp [tokens]
    rw [opened]
    cases members <;> exact inner

/-- The items of a list are read up to its end. -/
theorem read_itemTokens : ∀ (items done : List Json) (outer : List Frame) (rest : List Token),
    items ≠ [] →
    (itemTokens items ++ .closeList :: rest).foldlM ReaderState.next?
        (.value (.list done :: outer)) =
      rest.foldlM ReaderState.next? (.complete outer (.list (done.reverse ++ items)))
  | [], _, _, _, filled => absurd rfl filled
  | [item], done, outer, rest, _ => by
    rw [itemTokens, read_tokens item, ← List.reverse_cons]
    rfl
  | item :: next :: items, done, outer, rest, _ => by
    have later := read_itemTokens (next :: items) (item :: done) outer rest
      (List.cons_ne_nil next items)
    rw [List.reverse_cons, List.append_assoc, List.singleton_append] at later
    rw [itemTokens, List.append_assoc, read_tokens item]
    · exact later
    · exact List.cons_ne_nil next items

/-- The members of a record are read up to its end. -/
theorem read_memberTokens : ∀ (members done : List (String × Json)) (outer : List Frame)
    (rest : List Token), members ≠ [] →
    (memberTokens members ++ .closeRecord :: rest).foldlM ReaderState.next? (.key outer done) =
      rest.foldlM ReaderState.next? (.complete outer (.record (done.reverse ++ members)))
  | [], _, _, _, filled => absurd rfl filled
  | [(key, value)], done, outer, rest, _ => by
    have inner := read_tokens value (.record done key :: outer) (.closeRecord :: rest)
    rw [← List.reverse_cons]
    exact inner
  | (key, value) :: next :: members, done, outer, rest, _ => by
    have inner := read_tokens value (.record done key :: outer)
      (.comma :: (memberTokens (next :: members) ++ .closeRecord :: rest))
    have later := read_memberTokens (next :: members) ((key, value) :: done) outer rest
      (List.cons_ne_nil next members)
    rw [List.reverse_cons, List.append_assoc, List.singleton_append] at later
    have split : memberTokens ((key, value) :: next :: members) ++ .closeRecord :: rest =
        .text key :: .colon :: (tokens value ++ .comma ::
          (memberTokens (next :: members) ++ .closeRecord :: rest)) := by
      rw [memberTokens]
      · simp
      · simp
    rw [split]
    exact inner.trans later
end

/-- **A legible document is read from every text that spells it.** -/
theorem parse?_of_spelled {document : Json} {text : String} (legible : document.Legible)
    (spelled : Spelled document.tokens text.toList) : parse? text = some document := by
  have read := read_tokens document [] []
  rw [List.append_nil] at read
  unfold parse?
  rw [tokens?_of_spelled legible spelled, Option.bind_some]
  unfold ofTokens?
  rw [read]
  rfl

theorem parse?_compact {document : Json} (legible : document.Legible) :
    parse? document.compact = some document := by
  refine parse?_of_spelled legible ?_
  unfold compact
  rw [String.toList_ofList]
  exact .flatMap document.tokens

/-! ## Legible documents -/

theorem legible_of_single {document : Json} {token : Token} (single : document.tokens = [token])
    (legible : token.Legible) : document.Legible := by
  unfold Legible
  rw [single]
  exact List.forall_mem_singleton.mpr legible

theorem legible_null : null.Legible :=
  legible_of_single rfl (Token.legible_of_fixed nofun nofun)

theorem legible_bool (value : Bool) : (bool value).Legible :=
  legible_of_single rfl (Token.legible_of_fixed nofun nofun)

theorem legible_ofString (text : String) : (ofString text).Legible :=
  legible_of_single rfl (Token.legible_written text)

theorem legible_itemTokens : ∀ items : List Json, (∀ item ∈ items, item.Legible) →
    ∀ token ∈ itemTokens items, token.Legible
  | [], _ => nofun
  | [item], legible => legible item List.mem_cons_self
  | item :: next :: items, legible => by
    obtain ⟨here, others⟩ := List.forall_mem_cons.mp legible
    intro token listed
    have split : itemTokens (item :: next :: items) =
        item.tokens ++ .comma :: itemTokens (next :: items) := rfl
    rw [split, List.mem_append, List.mem_cons] at listed
    rcases listed with inside | rfl | later
    · exact here token inside
    · exact Token.legible_of_fixed nofun nofun
    · exact legible_itemTokens (next :: items) others token later

theorem legible_memberTokens : ∀ members : List (String × Json),
    (∀ member ∈ members, (Token.text member.1).Legible ∧ member.2.Legible) →
      ∀ token ∈ memberTokens members, token.Legible
  | [], _ => nofun
  | [(key, value)], legible => by
    obtain ⟨named, here⟩ := legible (key, value) List.mem_cons_self
    intro token listed
    have split : memberTokens [(key, value)] = .text key :: .colon :: value.tokens := rfl
    rw [split, List.mem_cons, List.mem_cons] at listed
    rcases listed with rfl | rfl | inside
    · exact named
    · exact Token.legible_of_fixed nofun nofun
    · exact here token inside
  | (key, value) :: next :: members, legible => by
    obtain ⟨⟨named, here⟩, others⟩ := List.forall_mem_cons.mp legible
    intro token listed
    have split : memberTokens ((key, value) :: next :: members) =
        .text key :: .colon :: (value.tokens ++ .comma :: memberTokens (next :: members)) := rfl
    rw [split, List.mem_cons, List.mem_cons, List.mem_append, List.mem_cons] at listed
    rcases listed with rfl | rfl | inside | rfl | later
    · exact named
    · exact Token.legible_of_fixed nofun nofun
    · exact here token inside
    · exact Token.legible_of_fixed nofun nofun
    · exact legible_memberTokens (next :: members) others token later

theorem legible_list {items : List Json} (legible : ∀ item ∈ items, item.Legible) :
    (list items).Legible := by
  intro token listed
  rw [tokens, List.cons_append, List.mem_cons, List.mem_append, List.mem_singleton] at listed
  rcases listed with rfl | inside | rfl
  · exact Token.legible_of_fixed nofun nofun
  · exact legible_itemTokens items legible token inside
  · exact Token.legible_of_fixed nofun nofun

theorem legible_ofMembers {members : List (String × Json)}
    (legible : ∀ member ∈ members, member.2.Legible) : (ofMembers members).Legible := by
  have inner : ∀ member ∈ members.map fun member => (written member.1, member.2),
      (Token.text member.1).Legible ∧ member.2.Legible := by
    intro member listed
    obtain ⟨original, here, rfl⟩ := List.mem_map.mp listed
    exact ⟨Token.legible_written original.1, legible original here⟩
  intro token listed
  unfold ofMembers at listed
  rw [tokens, List.cons_append, List.mem_cons, List.mem_append, List.mem_singleton] at listed
  rcases listed with rfl | inside | rfl
  · exact Token.legible_of_fixed nofun nofun
  · exact legible_memberTokens _ inner token inside
  · exact Token.legible_of_fixed nofun nofun

/-! ## Reading what was written -/

/-- Where each item is read back, the list of all items is. -/
theorem mapM_map {α β γ : Type} {write : α → β} {read : β → Option γ} {result : α → γ}
    {items : List α} (back : ∀ item ∈ items, read (write item) = some (result item)) :
    (items.map write).mapM read = some (items.map result) := by
  induction items with
  | nil => rfl
  | cons item items ih =>
    obtain ⟨here, others⟩ := List.forall_mem_cons.mp back
    rw [List.map_cons, List.mapM_cons, here, ih others]
    rfl

theorem string?_ofString (text : String) : (ofString text).string? = some text :=
  unwritten?_written text

theorem members?_ofMembers (members : List (String × Json)) :
    members? (ofMembers members) = some members := by
  have back : ∀ member ∈ members,
      (unwritten? (written member.1)).map (·, member.2) = some member := by
    intro member _
    rw [unwritten?_written, Option.map_some]
  have all : (members.map fun member => (written member.1, member.2)).mapM
      (fun member => (unwritten? member.1).map (·, member.2)) = some (members.map id) :=
    mapM_map back
  rw [List.map_id] at all
  exact all

/-- Under a key that is not repeated there is one member. -/
theorem filter_key_eq {members : List (String × Json)} {member : String × Json}
    (distinct : (members.map Prod.fst).Nodup) (listed : member ∈ members) :
    members.filter (fun other => other.1 = member.1) = [member] := by
  induction members with
  | nil => cases listed
  | cons first members ih =>
    obtain ⟨fresh, distinct⟩ := List.nodup_cons.mp distinct
    rcases List.mem_cons.mp listed with rfl | listed
    · have none : members.filter (fun other => other.1 = member.1) = [] := by
        refine List.filter_eq_nil_iff.mpr fun other later same => fresh ?_
        exact of_decide_eq_true same ▸ List.mem_map_of_mem later
      rw [List.filter_cons_of_pos (by simp), none]
    · have other : first.1 ≠ member.1 := fun same =>
        fresh (same ▸ List.mem_map_of_mem listed)
      rw [List.filter_cons_of_neg (by simpa using other), ih distinct listed]

theorem atMostOnce?_of_mem {members : List (String × Json)} {member : String × Json}
    (distinct : (members.map Prod.fst).Nodup) (listed : member ∈ members) :
    atMostOnce? members member.1 = some (some member.2) := by
  unfold atMostOnce?
  rw [filter_key_eq distinct listed]

/-- Fixed data is found again in the record that it was written as. -/
theorem shape?_ofMembers {members : List (String × Json)}
    (distinct : (members.map Prod.fst).Nodup) :
    (ofMembers members).shape? (members.map Prod.fst) =
      some (members.map fun member => some member.2) := by
  show ((members? (ofMembers members)).bind fun members' =>
    (members.map Prod.fst).mapM (atMostOnce? members')) = _
  rw [members?_ofMembers, Option.bind_some]
  exact mapM_map fun member listed => atMostOnce?_of_mem distinct listed

end FormEditor.Json
