import FormEditor.Attributes
import Mathlib.Data.List.Nodup

/-!
# Writing in bags of attributes

What is looked up in a bag after a name has been written or taken out.  A bag with distinct names
(`Attributes.Distinct`) behaves like a map from names to values: then what was written is what is
found, and a value can be put back (`Attributes.get?_assign_assign`).  With repeated names, taking a
name out may uncover a further entry of that name.

A name that is written keeps its place, and a new one comes to the end (`Attributes.names`).  A bag
with distinct names is known by their order and their values (`Attributes.Distinct.ext`).
-/

set_option autoImplicit false

namespace FormEditor.Attributes

variable {bag left right : Attributes} {name other : String} {value : Option String}

/-- No name has two entries. -/
def Distinct (bag : Attributes) : Prop := (bag.entries.map Prod.fst).Nodup

theorem distinct_empty : empty.Distinct := List.nodup_nil

/-- The names of a bag in their order. -/
def names (bag : Attributes) : List String := bag.entries.map Prod.fst

theorem names_cons {key held : String} {rest : List (String × String)} :
    (Attributes.mk ((key, held) :: rest)).names = key :: (Attributes.mk rest).names := rfl

/-! ## One scan -/

theorem get?_cons {key held : String} {rest : List (String × String)} :
    (Attributes.mk ((key, held) :: rest)).get? name =
      if key = name then some held else (Attributes.mk rest).get? name := by
  unfold get?
  by_cases here : key = name
  · rw [if_pos here, List.find?_cons_of_pos (by simpa using here)]
    rfl
  · rw [if_neg here, List.find?_cons_of_neg (by simpa using here)]

theorem get?_eq_none (outside : name ∉ bag.entries.map Prod.fst) : bag.get? name = none := by
  unfold get?
  rw [Option.map_eq_none_iff, List.find?_eq_none]
  intro entry listed same
  exact outside (List.mem_map.mpr ⟨entry, listed, of_decide_eq_true same⟩)

/-- The scan gives the value that was there. -/
theorem exchangeIn_fst {entries : List (String × String)} :
    (exchangeIn name value entries).1 = (Attributes.mk entries).get? name := by
  induction entries with
  | nil => rfl
  | cons entry rest ih =>
    obtain ⟨key, held⟩ := entry
    rw [get?_cons]
    unfold exchangeIn
    split
    · rfl
    · exact ih

/-- The scan keeps to the names that were there and the one that is written. -/
theorem mem_exchangeIn {entries : List (String × String)}
    (listed : other ∈ (exchangeIn name value entries).2.map Prod.fst) :
    other ∈ entries.map Prod.fst ∨ other = name := by
  induction entries with
  | nil =>
    obtain ⟨entry, member, rfl⟩ := List.mem_map.mp listed
    obtain ⟨text, written, rfl⟩ := List.mem_map.mp member
    exact .inr rfl
  | cons entry rest ih =>
    obtain ⟨key, held⟩ := entry
    unfold exchangeIn at listed
    rw [List.map_cons]
    split at listed
    · rename_i here
      rw [List.map_append, List.mem_append] at listed
      rcases listed with listed | listed
      · obtain ⟨entry, member, rfl⟩ := List.mem_map.mp listed
        obtain ⟨text, written, rfl⟩ := List.mem_map.mp member
        exact .inl List.mem_cons_self
      · exact .inl (List.mem_cons_of_mem _ listed)
    · rw [List.map_cons, List.mem_cons] at listed
      rcases listed with rfl | listed
      · exact .inl List.mem_cons_self
      · exact (ih listed).imp (List.mem_cons_of_mem _) id

theorem nodup_exchangeIn {entries : List (String × String)}
    (distinct : (entries.map Prod.fst).Nodup) :
    ((exchangeIn name value entries).2.map Prod.fst).Nodup := by
  induction entries with
  | nil => cases value <;> simp [exchangeIn]
  | cons entry rest ih =>
    obtain ⟨key, held⟩ := entry
    rw [List.map_cons, List.nodup_cons] at distinct
    obtain ⟨fresh, distinct⟩ := distinct
    unfold exchangeIn
    split
    · cases value with
      | none => exact distinct
      | some text => exact List.nodup_cons.mpr ⟨fresh, distinct⟩
    · rename_i elsewhere
      refine List.nodup_cons.mpr ⟨fun again => ?_, ih distinct⟩
      rcases mem_exchangeIn again with listed | same
      · exact fresh listed
      · exact elsewhere same

/-! ## Looking up what was written -/

theorem exchange_fst : (bag.exchange name value).1 = bag.get? name := exchangeIn_fst

/-- A bag stays one with distinct names. -/
theorem Distinct.assign (distinct : bag.Distinct) : (bag.assign name value).Distinct :=
  nodup_exchangeIn distinct

theorem get?_assign_of_ne (different : other ≠ name) :
    (bag.assign name value).get? other = bag.get? other := by
  obtain ⟨entries⟩ := bag
  show (Attributes.mk (exchangeIn name value entries).2).get? other = _
  induction entries with
  | nil =>
    cases value with
    | none => rfl
    | some text =>
      show (Attributes.mk [(name, text)]).get? other = _
      rw [get?_cons, if_neg (Ne.symm different)]
  | cons entry rest ih =>
    obtain ⟨key, held⟩ := entry
    rw [get?_cons]
    unfold exchangeIn
    split
    · rename_i here
      have elsewhere : key ≠ other := fun same => different (same.symm.trans here)
      rw [if_neg elsewhere]
      cases value with
      | none => rfl
      | some text =>
        show (Attributes.mk ((key, text) :: rest)).get? other = _
        rw [get?_cons, if_neg elsewhere]
    · show (Attributes.mk ((key, held) :: (exchangeIn name value rest).2)).get? other = _
      rw [get?_cons, ih]

/-- In any bag, a text that was written is found. -/
theorem get?_assign_some {text : String} : (bag.assign name (some text)).get? name = some text := by
  obtain ⟨entries⟩ := bag
  show (Attributes.mk (exchangeIn name (some text) entries).2).get? name = _
  induction entries with
  | nil => exact get?_cons.trans (if_pos rfl)
  | cons entry rest ih =>
    obtain ⟨key, held⟩ := entry
    unfold exchangeIn
    split
    · rename_i here
      exact get?_cons.trans (if_pos here)
    · rename_i elsewhere
      show (Attributes.mk ((key, held) :: (exchangeIn name (some text) rest).2)).get? name = _
      rw [get?_cons, if_neg elsewhere, ih]

/-- Taking a name out takes one entry out, so that a further one may come to light. -/
theorem names_assign_none : (bag.assign name none).names = bag.names.erase name := by
  obtain ⟨entries⟩ := bag
  show (Attributes.mk (exchangeIn name none entries).2).names = _
  induction entries with
  | nil => rfl
  | cons entry rest ih =>
    obtain ⟨key, held⟩ := entry
    rw [names_cons]
    unfold exchangeIn
    split
    · rename_i here
      rw [here, List.erase_cons_head]
      rfl
    · rename_i elsewhere
      rw [List.erase_cons_tail (by simpa using elsewhere), names_cons, ih]

/-- In a bag with distinct names, what was written is found. -/
theorem Distinct.get?_assign (distinct : bag.Distinct) :
    (bag.assign name value).get? name = value := by
  cases value with
  | none =>
    refine get?_eq_none ?_
    show name ∉ (bag.assign name none).names
    rw [names_assign_none]
    exact List.Nodup.not_mem_erase distinct
  | some text => exact get?_assign_some

/-- Writing what is there already leaves the bag alone. -/
theorem assign_of_get? (found : bag.get? name = value) : bag.assign name value = bag := by
  obtain ⟨entries⟩ := bag
  show Attributes.mk (exchangeIn name value entries).2 = _
  congr 1
  induction entries with
  | nil =>
    cases found
    rfl
  | cons entry rest ih =>
    obtain ⟨key, held⟩ := entry
    rw [get?_cons] at found
    unfold exchangeIn
    split
    · rename_i here
      rw [if_pos here] at found
      cases found
      rfl
    · rename_i elsewhere
      rw [if_neg elsewhere] at found
      exact congrArg (_ :: ·) (ih found)

/-- Writing the previous value back into a bag that has the values of the written one restores
what is looked up. -/
theorem Distinct.get?_assign_back (distinct : left.Distinct)
    (values : left.get? = (bag.assign name value).get?) :
    (left.assign name (bag.get? name)).get? = bag.get? := by
  funext other
  by_cases same : other = name
  · rw [same]
    exact distinct.get?_assign
  · rw [get?_assign_of_ne same, values, get?_assign_of_ne same]

/-- Writing the previous value back restores what is looked up. -/
theorem Distinct.get?_assign_assign (distinct : bag.Distinct) :
    ((bag.assign name value).assign name (bag.get? name)).get? = bag.get? :=
  distinct.assign.get?_assign_back rfl

theorem Distinct.removeAll {names : List String} (distinct : bag.Distinct) :
    (bag.removeAll names).Distinct := by
  induction names generalizing bag with
  | nil => exact distinct
  | cons name names ih =>
    show ((bag.remove name).removeAll names).Distinct
    exact ih distinct.assign

theorem distinct_ofList {pairs : List (String × String)} : (ofList pairs).Distinct := by
  have kept : ∀ {bag : Attributes}, bag.Distinct →
      (pairs.foldl (fun bag pair => bag.set pair.1 pair.2) bag).Distinct := by
    induction pairs with
    | nil => exact fun distinct => distinct
    | cons pair pairs ih => exact fun distinct => ih distinct.assign
  exact kept distinct_empty

/-! ## The order of names -/

theorem get?_eq_none_iff : bag.get? name = none ↔ name ∉ bag.names := by
  refine ⟨fun missing listed => ?_, get?_eq_none⟩
  obtain ⟨entry, member, same⟩ := List.mem_map.mp listed
  unfold get? at missing
  rw [Option.map_eq_none_iff, List.find?_eq_none] at missing
  exact missing entry member (decide_eq_true same)

theorem mem_names_iff : name ∈ bag.names ↔ ∃ value, bag.get? name = some value := by
  rw [← Option.ne_none_iff_exists', ne_eq, get?_eq_none_iff, not_not]

/-- A bag with distinct names is known by the order of its names and by their values. -/
theorem Distinct.ext (distinct : left.Distinct) (names : left.names = right.names)
    (values : left.get? = right.get?) : left = right := by
  obtain ⟨entries⟩ := left
  obtain ⟨others⟩ := right
  induction entries generalizing others with
  | nil =>
    cases others with
    | nil => rfl
    | cons _ _ => cases names
  | cons entry entries ih =>
    cases others with
    | nil => cases names
    | cons further others =>
      obtain ⟨key, held⟩ := entry
      obtain ⟨key', held'⟩ := further
      rw [names_cons, names_cons, List.cons.injEq] at names
      obtain ⟨rfl, names⟩ := names
      obtain ⟨fresh, distinct⟩ := List.nodup_cons.mp distinct
      have first := congrFun values key
      rw [get?_cons, get?_cons, if_pos rfl, if_pos rfl, Option.some.injEq] at first
      have rest : (Attributes.mk entries).get? = (Attributes.mk others).get? := by
        funext other
        by_cases here : key = other
        · subst here
          rw [get?_eq_none fresh, eq_comm]
          exact get?_eq_none_iff.mpr (names ▸ fresh)
        · have found := congrFun values other
          rwa [get?_cons, get?_cons, if_neg here, if_neg here] at found
      rw [first, Attributes.mk.inj (ih distinct others names rest)]

/-- A name that is taken out leaves the other entries in their order. -/
theorem Distinct.entries_assign_none (distinct : bag.Distinct) :
    (bag.assign name none).entries = bag.entries.filter fun entry => entry.1 ≠ name := by
  obtain ⟨entries⟩ := bag
  show (exchangeIn name none entries).2 = _
  induction entries with
  | nil => rfl
  | cons entry rest ih =>
    obtain ⟨key, held⟩ := entry
    obtain ⟨fresh, distinct⟩ := List.nodup_cons.mp distinct
    unfold exchangeIn
    split
    · rename_i here
      have kept : rest.filter (fun entry => entry.1 ≠ name) = rest := by
        rw [List.filter_eq_self]
        intro other listed
        exact decide_eq_true fun same =>
          fresh (List.mem_map.mpr ⟨other, listed, same.trans here.symm⟩)
      rw [List.filter_cons_of_neg (by simpa using here), kept]
      rfl
    · rename_i elsewhere
      rw [List.filter_cons_of_pos (by simpa using elsewhere), ← ih distinct]

theorem Distinct.names_assign_none (distinct : bag.Distinct) :
    (bag.assign name none).names = bag.names.filter (· ≠ name) := by
  have unique : bag.names.Nodup := distinct
  rw [Attributes.names_assign_none, unique.erase_eq_filter]
  exact List.filter_congr fun other _ => by simp [bne, beq_eq_decide]

/-- Names that are taken out leave the other entries in their order. -/
theorem Distinct.entries_removeAll {names : List String} (distinct : bag.Distinct) :
    (bag.removeAll names).entries = bag.entries.filter fun entry => entry.1 ∉ names := by
  induction names generalizing bag with
  | nil => simp [Attributes.removeAll]
  | cons name names ih =>
    show ((bag.assign name none).removeAll names).entries = _
    rw [ih distinct.assign, distinct.entries_assign_none, List.filter_filter]
    refine List.filter_congr fun entry _ => ?_
    simp only [List.mem_cons, not_or, Bool.decide_and, Bool.and_comm]

/-- A name that is there keeps its place when it is written. -/
theorem names_assign_of_mem {text : String} (inside : name ∈ bag.names) :
    (bag.assign name (some text)).names = bag.names := by
  obtain ⟨entries⟩ := bag
  show (Attributes.mk (exchangeIn name (some text) entries).2).names = _
  induction entries with
  | nil => cases inside
  | cons entry rest ih =>
    obtain ⟨key, held⟩ := entry
    unfold exchangeIn
    split
    · rfl
    · rename_i elsewhere
      have later : name ∈ (Attributes.mk rest).names :=
        (List.mem_cons.mp inside).resolve_left (Ne.symm elsewhere)
      rw [names_cons, names_cons, ih later]

/-- A name that is not there comes to the end, if it is written. -/
theorem names_assign_of_not_mem (outside : name ∉ bag.names) :
    (bag.assign name value).names = bag.names ++ value.toList.map fun _ => name := by
  obtain ⟨entries⟩ := bag
  show (Attributes.mk (exchangeIn name value entries).2).names = _
  induction entries with
  | nil => cases value <;> rfl
  | cons entry rest ih =>
    obtain ⟨key, held⟩ := entry
    rw [names_cons, List.mem_cons, not_or] at outside
    unfold exchangeIn
    rw [if_neg (Ne.symm outside.1), names_cons, names_cons, List.cons_append, ← ih outside.2]

/-! ## The other entries -/

/-- The bag without the entries of some names, with all others in their order. -/
def apart (bag : Attributes) (names : List String) : Attributes :=
  ⟨bag.entries.filter fun entry => entry.1 ∉ names⟩

/-- Writing a name leaves the entries of all others alone. -/
theorem apart_assign {names : List String} (inside : name ∈ names) :
    (bag.assign name value).apart names = bag.apart names := by
  obtain ⟨entries⟩ := bag
  show Attributes.mk ((exchangeIn name value entries).2.filter fun entry => entry.1 ∉ names) =
    ⟨entries.filter fun entry => entry.1 ∉ names⟩
  congr 1
  have hidden (key : String) (here : key = name) (rest : List (String × String)) :
      (value.toList.map (fun text => (key, text)) ++ rest).filter (fun entry => entry.1 ∉ names) =
        rest.filter fun entry => entry.1 ∉ names := by
    cases value <;> simp [here, inside]
  induction entries with
  | nil =>
    have written := hidden name rfl []
    rwa [List.append_nil] at written
  | cons entry rest ih =>
    obtain ⟨key, held⟩ := entry
    unfold exchangeIn
    split
    · rename_i here
      rw [List.filter_cons_of_neg (by simpa [here] using inside)]
      exact hidden key here rest
    · show ((key, held) :: (exchangeIn name value rest).2).filter _ = _
      rw [List.filter_cons, List.filter_cons, ih]

end FormEditor.Attributes
