import FormEditor.Proofs.Bags
import Std.Data.ExtTreeMap

/-!
# Bags and plain maps

A bag that was built by writes is a plain map from names to texts that also remembers an order.
The same writes are made in a map that knows nothing of order (`Write.inMap`).  The bag then has
the texts of the map, and lists the names in the order in which they were last added
(`Attributes.Follows`).

A write adds a name if it writes a text where the map has none (`Write.Adds`).  So a text that is
replaced leaves its name where it is, and a name that was taken out comes to the end when it is
written again.

Main statement: this is so after any writes in a bag that was collected from any pairs, and each
write answers with what the map had before it (`insertion_order_law`).
-/

set_option autoImplicit false

namespace FormEditor.Attributes

/-- The three ways to write in a bag. -/
inductive Write where
  | set (name text : String)
  | remove (name : String)
  | exchange (name : String) (value : Option String)

/-- Texts under names, in no order. -/
abbrev PlainMap := Std.ExtTreeMap String String

namespace Write

/-- The name that is written. -/
def name : Write → String
  | .set name _ => name
  | .remove name => name
  | .exchange name _ => name

/-- What is written under the name; `none` takes it out. -/
def value : Write → Option String
  | .set _ text => some text
  | .remove _ => none
  | .exchange _ value => value

/-- What a write in a bag answers, and the bag that it leaves. -/
def inBag (bag : Attributes) : Write → Option String × Attributes
  | .set name text => ((bag.exchange name (some text)).1, bag.set name text)
  | .remove name => ((bag.exchange name none).1, bag.remove name)
  | .exchange name value => bag.exchange name value

/-- What the same write makes of a plain map. -/
def inMap (map : PlainMap) (write : Write) : PlainMap :=
  match write.value with
  | some text => map.insert write.name text
  | none => map.erase write.name

theorem inBag_eq (bag : Attributes) (write : Write) :
    write.inBag bag = (bag.get? write.name, bag.assign write.name write.value) := by
  cases write <;> exact Prod.ext exchange_fst rfl

theorem getElem?_inMap {map : PlainMap} {write : Write} {name : String} :
    (write.inMap map)[name]? = if name = write.name then write.value else map[name]? := by
  have turned : compare write.name name = .eq ↔ name = write.name := by
    rw [Std.LawfulEqOrd.compare_eq_iff_eq, eq_comm]
  unfold inMap
  cases write.value with
  | some text => simp only [Std.ExtTreeMap.getElem?_insert, turned]
  | none => simp only [Std.ExtTreeMap.getElem?_erase, turned]

end Write

/-- The bag after several writes. -/
def afterWrites (bag : Attributes) (writes : List Write) : Attributes :=
  writes.foldl (fun bag write => (write.inBag bag).2) bag

/-- The plain map that several writes build. -/
def PlainMap.ofWrites (writes : List Write) : PlainMap :=
  writes.foldl Write.inMap ∅

/-! ## When names are added -/

/-- After the earlier writes, the write adds a name: it writes a text where the map has none. -/
def Write.Adds (earlier : List Write) (write : Write) (name : String) : Prop :=
  write.name = name ∧ (∃ text, write.value = some text) ∧ (PlainMap.ofWrites earlier)[name]? = none

/-- The write at an index is one that adds the name. -/
def AddedAt (writes : List Write) (name : String) (index : Nat) : Prop :=
  ∃ write, writes[index]? = some write ∧ write.Adds (writes.take index) name

/-- The write at an index is the last one that adds the name. -/
def LastAddedAt (writes : List Write) (name : String) (index : Nat) : Prop :=
  AddedAt writes name index ∧ ∀ other, AddedAt writes name other → other ≤ index

/-- The one name was last added before the other one was. -/
def AddedBefore (writes : List Write) (former latter : String) : Prop :=
  ∃ earlier later, LastAddedAt writes former earlier ∧ LastAddedAt writes latter later ∧
    earlier < later

variable {bag : Attributes} {writes further : List Write} {write : Write}
  {name former latter : String} {index : Nat}

theorem AddedAt.lt_length (added : AddedAt writes name index) : index < writes.length := by
  obtain ⟨write, here, -⟩ := added
  exact (List.getElem?_eq_some_iff.mp here).1

/-- A further write adds a name or not; nothing else changes about when names are added. -/
theorem addedAt_append_iff :
    AddedAt (writes ++ [write]) name index ↔
      AddedAt writes name index ∨ index = writes.length ∧ write.Adds writes name := by
  rcases Nat.lt_trichotomy index writes.length with inside | rfl | outside
  · have kept : AddedAt (writes ++ [write]) name index ↔ AddedAt writes name index := by
      unfold AddedAt
      rw [List.getElem?_append_left inside, List.take_append_of_le_length (Nat.le_of_lt inside)]
    rw [kept, or_iff_left fun both => Nat.ne_of_lt inside both.1]
  · have fresh : ¬ AddedAt writes name writes.length := fun added =>
      Nat.lt_irrefl _ added.lt_length
    rw [or_iff_right fresh, and_iff_right rfl]
    simp [AddedAt]
  · refine iff_of_false (fun added => ?_) ?_
    · have bound := added.lt_length
      rw [List.length_append, List.length_singleton] at bound
      omega
    · rintro (added | ⟨here, -⟩)
      · exact Nat.lt_asymm outside added.lt_length
      · exact Nat.ne_of_gt outside here

/-- A name that a further write does not add was last added when it was before. -/
theorem LastAddedAt.append (last : LastAddedAt writes name index)
    (stays : ¬ write.Adds writes name) : LastAddedAt (writes ++ [write]) name index := by
  refine ⟨addedAt_append_iff.mpr (.inl last.1), fun other added => ?_⟩
  rcases addedAt_append_iff.mp added with before | ⟨-, adds⟩
  · exact last.2 other before
  · exact absurd adds stays

theorem AddedBefore.append (before : AddedBefore writes former latter)
    (formerStays : ¬ write.Adds writes former) (latterStays : ¬ write.Adds writes latter) :
    AddedBefore (writes ++ [write]) former latter := by
  obtain ⟨earlier, later, first, second, less⟩ := before
  exact ⟨earlier, later, first.append formerStays, second.append latterStays, less⟩

/-- A name that a further write adds was last added by it. -/
theorem Write.Adds.lastAddedAt (adds : write.Adds writes name) :
    LastAddedAt (writes ++ [write]) name writes.length := by
  refine ⟨addedAt_append_iff.mpr (.inr ⟨rfl, adds⟩), fun other added => ?_⟩
  have bound := added.lt_length
  rw [List.length_append, List.length_singleton] at bound
  exact Nat.le_of_lt_succ bound

/-! ## The bag follows the map -/

/-- The bag is what writes make of an empty one: it has the texts of the plain map, one entry for
each name, and the names stand in the order in which they were last added. -/
structure Follows (writes : List Write) (bag : Attributes) : Prop where
  distinct : bag.Distinct
  agrees : ∀ name, bag.get? name = (PlainMap.ofWrites writes)[name]?
  added : ∀ name ∈ bag.names, ∃ index, LastAddedAt writes name index
  ordered : bag.names.Pairwise (AddedBefore writes)

theorem follows_empty : Follows [] empty where
  distinct := distinct_empty
  agrees := fun _ => Std.ExtTreeMap.getElem?_empty.symm
  added := fun _ listed => nomatch listed
  ordered := .nil

namespace Follows

theorem adds_iff (follows : Follows writes bag) :
    write.Adds writes name ↔
      write.name = name ∧ (∃ text, write.value = some text) ∧ name ∉ bag.names := by
  unfold Write.Adds
  rw [← follows.agrees, get?_eq_none_iff]

/-- Names that a further write does not add keep their order. -/
theorem order_kept (follows : Follows writes bag) {names : List String}
    (sub : names.Sublist bag.names) (stay : ∀ name ∈ names, ¬ write.Adds writes name) :
    (∀ name ∈ names, ∃ index, LastAddedAt (writes ++ [write]) name index) ∧
      names.Pairwise (AddedBefore (writes ++ [write])) := by
  constructor
  · intro name listed
    obtain ⟨index, last⟩ := follows.added name (sub.subset listed)
    exact ⟨index, last.append (stay name listed)⟩
  · exact (follows.ordered.sublist sub).imp_of_mem fun first second before =>
      before.append (stay _ first) (stay _ second)

/-- A name that a further write adds comes behind those that were there. -/
theorem order_grown (follows : Follows writes bag) (adds : write.Adds writes name) :
    (∀ other ∈ bag.names ++ [name], ∃ index, LastAddedAt (writes ++ [write]) other index) ∧
      (bag.names ++ [name]).Pairwise (AddedBefore (writes ++ [write])) := by
  have outside := (follows.adds_iff.mp adds).2.2
  have stay : ∀ other ∈ bag.names, ¬ write.Adds writes other := fun other listed again =>
    outside (again.1.symm.trans adds.1 ▸ listed)
  obtain ⟨added, ordered⟩ := follows.order_kept (List.Sublist.refl _) stay
  constructor
  · intro other listed
    rcases List.mem_append.mp listed with before | last
    · exact added other before
    · exact ⟨_, List.mem_singleton.mp last ▸ adds.lastAddedAt⟩
  · refine List.pairwise_append.mpr
      ⟨ordered, List.pairwise_singleton _ _, fun other listed latter last => ?_⟩
    obtain ⟨index, before⟩ := follows.added other listed
    rw [List.mem_singleton.mp last]
    exact ⟨index, _, before.append (stay other listed), adds.lastAddedAt, before.1.lt_length⟩

/-- A further write in the bag follows the same write in the map. -/
theorem next (follows : Follows writes bag) :
    Follows (writes ++ [write]) (write.inBag bag).2 := by
  have order : (∀ name ∈ (write.inBag bag).2.names,
        ∃ index, LastAddedAt (writes ++ [write]) name index) ∧
      (write.inBag bag).2.names.Pairwise (AddedBefore (writes ++ [write])) := by
    rw [Write.inBag_eq]
    cases written : write.value with
    | none =>
      rw [follows.distinct.names_assign_none]
      refine follows.order_kept List.filter_sublist fun name _ adds => ?_
      obtain ⟨-, ⟨text, given⟩, -⟩ := adds
      cases written.symm.trans given
    | some text =>
      by_cases inside : write.name ∈ bag.names
      · rw [names_assign_of_mem inside]
        exact follows.order_kept (List.Sublist.refl _) fun name _ adds =>
          (follows.adds_iff.mp adds).2.2 (adds.1 ▸ inside)
      · rw [names_assign_of_not_mem inside]
        exact follows.order_grown (follows.adds_iff.mpr ⟨rfl, ⟨text, written⟩, inside⟩)
  refine { distinct := ?_, agrees := fun name => ?_, added := order.1, ordered := order.2 }
  · rw [Write.inBag_eq]
    exact follows.distinct.assign
  · have unfolded : PlainMap.ofWrites (writes ++ [write]) =
        write.inMap (PlainMap.ofWrites writes) := List.foldl_concat ..
    rw [unfolded, Write.getElem?_inMap, Write.inBag_eq]
    split
    · rename_i same
      rw [same]
      exact follows.distinct.get?_assign
    · rename_i different
      exact (get?_assign_of_ne different).trans (follows.agrees name)

/-- Further writes in the bag follow the same writes in the map. -/
theorem afterWrites (follows : Follows writes bag) :
    Follows (writes ++ further) (bag.afterWrites further) := by
  induction further generalizing writes bag with
  | nil => exact (List.append_nil writes).symm ▸ follows
  | cons write further ih =>
    rw [List.append_cons]
    exact ih follows.next

end Follows

/-- Collecting pairs is writing them one after the other. -/
theorem follows_ofList (pairs : List (String × String)) :
    Follows (pairs.map fun pair => .set pair.1 pair.2) (ofList pairs) := by
  have collected : ofList pairs = empty.afterWrites (pairs.map fun pair => .set pair.1 pair.2) := by
    unfold Attributes.afterWrites
    rw [List.foldl_map]
    rfl
  rw [collected]
  exact follows_empty.afterWrites

/-! ## The law -/

/-- **A bag is a map that keeps the order in which names were added.**  After any writes in a bag
that was collected from any pairs, names are distinct; what is looked up is what a plain map has
that was built by the same writes; and whatever is written next is answered with what that map has
under the name.  The names stand in the order in which they were last added.  So a name keeps its
place when its text is replaced, and comes to the end when it is written after it was taken out. -/
theorem insertion_order_law (pairs : List (String × String)) (writes : List Write) :
    let bag := (ofList pairs).afterWrites writes
    let history := pairs.map (fun pair => Write.set pair.1 pair.2) ++ writes
    let map := PlainMap.ofWrites history
    bag.names.Nodup ∧
    (∀ name, bag.get? name = map[name]?) ∧
    (∀ write : Write, (write.inBag bag).1 = map[write.name]?) ∧
    ((∀ name ∈ bag.names, ∃ index, LastAddedAt history name index) ∧
      bag.names.Pairwise (AddedBefore history)) ∧
    (∀ name text, name ∈ bag.names → (bag.set name text).names = bag.names) ∧
    ∀ name text,
      ((bag.remove name).set name text).names = bag.names.filter (· ≠ name) ++ [name] := by
  intro bag history map
  have follows : Follows history bag := (follows_ofList pairs).afterWrites
  refine ⟨follows.distinct, follows.agrees, fun write => ?_, ⟨follows.added, follows.ordered⟩,
    fun name text inside => names_assign_of_mem inside, fun name text => ?_⟩
  · rw [Write.inBag_eq]
    exact follows.agrees write.name
  · have left : (bag.remove name).names = bag.names.filter (· ≠ name) :=
      follows.distinct.names_assign_none
    have outside : name ∉ (bag.remove name).names := by
      rw [left]
      simp
    exact (names_assign_of_not_mem outside).trans (congrArg (· ++ [name]) left)

/-- A name that is taken out and written again comes to the end; one that is only written again
stays in front. -/
example : ((ofList [("b", "1"), ("a", "2")]).afterWrites
      [.set "b" "3", .exchange "a" none, .set "c" "4", .exchange "a" (some "5")]).entries =
    [("b", "3"), ("c", "4"), ("a", "5")] := by
  decide +kernel

end FormEditor.Attributes
