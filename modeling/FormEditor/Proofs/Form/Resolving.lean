import FormEditor.Proofs.Form.Blocks
import FormEditor.Proofs.Form.Outlines

/-!
# Which lists stand for runs

A list of ids stands for a run exactly if it lists an unbroken block of siblings in some order.
There are few things that can be wrong with a list (`Form.Unresolvable`), and each of them is enough
for the list to be refused.  Which fault is named depends on what comes first in the list
(`Form.Refuses`); the fault that a field is detached is never named in a valid form.

Main statement: `Form.resolution_law`.
-/

set_option autoImplicit false

namespace FormEditor.Form

variable {form : Form} {parent id : NodeId} {ids : List NodeId} {fault : Fault}

/-- Three children stand in this order, and of these the outer two are listed but not the one
between them. -/
def Gap (form : Form) (ids : List NodeId) : Prop :=
  ∃ parent first skipped last, [first, skipped, last].Sublist (form.children parent) ∧
    first ∈ ids ∧ last ∈ ids ∧ skipped ∉ ids

/-- What can be wrong with a list of ids that is to stand for a run. -/
inductive Unresolvable (form : Form) (ids : List NodeId) : Prop where
  | empty : ids = [] → Unresolvable form ids
  | root : form.root ∈ ids → Unresolvable form ids
  | unknown {id : NodeId} : id ∈ ids → ¬ form.contains id → Unresolvable form ids
  | repeated : ¬ ids.Nodup → Unresolvable form ids
  | apart {id other : NodeId} :
      id ∈ ids → other ∈ ids → form.parent? id ≠ form.parent? other → Unresolvable form ids
  | gap : form.Gap ids → Unresolvable form ids

/-! ## Gaps -/

/-- What stands between two elements of a stretch of a list without repetitions lies in the stretch
too. -/
theorem mem_of_between {front block back : List NodeId} {first middle last : NodeId}
    (distinct : (front ++ block ++ back).Nodup)
    (order : [first, middle, last].Sublist (front ++ block ++ back))
    (opens : first ∈ block) (closes : last ∈ block) : middle ∈ block := by
  rw [List.append_assoc] at distinct order
  obtain ⟨-, rest, outside⟩ := List.nodup_append.mp distinct
  obtain ⟨-, -, beyond⟩ := List.nodup_append.mp rest
  obtain ⟨before, here, split, inFront, order⟩ := List.sublist_append_iff.mp order
  cases before with
  | cons head before =>
    obtain ⟨rfl, -⟩ := List.cons.inj split
    exact absurd rfl (outside _ (inFront.subset List.mem_cons_self) _
      (List.mem_append_left _ opens))
  | nil =>
    obtain rfl : [first, middle, last] = here := split
    obtain ⟨inside, after, split, inBlock, inBack⟩ := List.sublist_append_iff.mp order
    rcases List.eq_nil_or_concat after with rfl | ⟨after, tail, rfl⟩
    · rw [List.append_nil] at split
      exact inBlock.subset (split ▸ List.mem_cons_of_mem _ List.mem_cons_self)
    · have ends := congrArg List.getLast? split
      rw [List.concat_eq_append, ← List.append_assoc, List.getLast?_concat] at ends
      obtain rfl : last = tail := Option.some.inj ends
      refine absurd rfl (beyond _ closes _ (inBack.subset ?_))
      rw [List.concat_eq_append]
      exact List.mem_append_right _ (List.mem_singleton_self _)

/-- If a list leaves no gap among siblings, then those that it lists stand together. -/
theorem exists_stretch (siblings : List NodeId)
    (closed : ∀ first skipped last, [first, skipped, last].Sublist siblings →
      first ∈ ids → last ∈ ids → skipped ∈ ids) :
    ∃ front block back, siblings = front ++ block ++ back ∧
      (∀ id ∈ front, id ∉ ids) ∧ (∀ id ∈ block, id ∈ ids) ∧ ∀ id ∈ back, id ∉ ids := by
  cases opening : siblings.find? fun id => id ∈ ids with
  | none =>
    refine ⟨siblings, [], [], by simp, fun id listed => ?_, nofun, nofun⟩
    simpa using List.find?_eq_none.mp opening id listed
  | some first =>
    obtain ⟨opens, front, tail, rfl, before⟩ := List.find?_eq_some_iff_append.mp opening
    have before : ∀ id ∈ front, id ∉ ids := fun id listed => by simpa using before id listed
    cases ending : tail.find? fun id => id ∉ ids with
    | none =>
      refine ⟨front, first :: tail, [], by simp, before, fun id listed => ?_, nofun⟩
      rcases List.mem_cons.mp listed with rfl | listed
      · simpa using opens
      · simpa using List.find?_eq_none.mp ending id listed
    | some skipped =>
      obtain ⟨ends, middle, back, rfl, within⟩ := List.find?_eq_some_iff_append.mp ending
      refine ⟨front, first :: middle, skipped :: back, by simp, before, fun id listed => ?_,
        fun id listed named => ?_⟩
      · rcases List.mem_cons.mp listed with rfl | listed
        · simpa using opens
        · simpa using within id listed
      · rcases List.mem_cons.mp listed with rfl | listed
        · exact absurd named (by simpa using ends)
        · have later : [skipped, id].Sublist (middle ++ skipped :: back) :=
            .trans (.cons_cons skipped (List.singleton_sublist.mpr listed))
              (List.sublist_append_right middle _)
          have order : [first, skipped, id].Sublist
              (front ++ first :: (middle ++ skipped :: back)) :=
            .trans (.cons_cons first later) (List.sublist_append_right front _)
          exact absurd (closed first skipped id order (by simpa using opens) named)
            (by simpa using ends)

namespace WellFormed

variable (wellFormed : form.WellFormed)
include wellFormed

/-- A list with nothing wrong about it lists a block in some order. -/
theorem exists_block (sound : ¬ form.Unresolvable ids) :
    ∃ run : Run, ids.Perm run.ids ∧ form.Block run.parent run.start run.ids := by
  have distinct : ids.Nodup := Decidable.not_not.mp fun repeated => sound (.repeated repeated)
  obtain ⟨first, rest, rfl⟩ := List.exists_cons_of_ne_nil fun none => sound (.empty none)
  have stored : form.contains first :=
    Decidable.not_not.mp fun missing => sound (.unknown List.mem_cons_self missing)
  obtain ⟨parent, above⟩ := wellFormed.exists_parent stored fun same =>
    sound (.root (same ▸ List.mem_cons_self))
  have siblings : ∀ id ∈ first :: rest, id ∈ form.children parent := by
    intro id listed
    have same : form.parent? id = form.parent? first :=
      Decidable.not_not.mp fun differs => sound (.apart listed List.mem_cons_self differs)
    exact wellFormed.mem_children (same.trans above)
  obtain ⟨front, block, back, children, before, within, behind⟩ :=
    exists_stretch (form.children parent) fun first skipped last order opens closes =>
      Decidable.not_not.mp fun missing =>
        sound (.gap ⟨parent, first, skipped, last, order, opens, closes, missing⟩)
  have stretch : form.Block parent front.length block := ⟨front, back, children, rfl⟩
  refine ⟨⟨parent, front.length, block⟩, ?_, stretch⟩
  refine (List.perm_ext_iff_of_nodup distinct (stretch.nodup wellFormed.toLinksFit)).mpr fun id =>
    ⟨fun listed => ?_, within id⟩
  have place := siblings id listed
  rw [children, List.mem_append, List.mem_append] at place
  rcases place with (early | here) | late
  · exact absurd listed (before id early)
  · exact here
  · exact absurd listed (behind id late)

/-- A list that stands for a run has nothing wrong about it. -/
theorem not_unresolvable {run : Run} (found : form.run ids = .ok run) :
    ¬ form.Unresolvable ids := by
  obtain ⟨nonempty, perm, block⟩ := wellFormed.run_eq_ok_iff.mp found
  have fits := wellFormed.toLinksFit
  intro wrong
  cases wrong with
  | empty none => exact nonempty none
  | root listed => exact block.ne_root fits (perm.mem_iff.mp listed) rfl
  | unknown listed missing => exact missing (block.contains fits (perm.mem_iff.mp listed))
  | repeated again => exact again (perm.nodup_iff.mpr (block.nodup fits))
  | apart listed listed' differs =>
    exact differs ((block.parent?_eq fits (perm.mem_iff.mp listed)).trans
      (block.parent?_eq fits (perm.mem_iff.mp listed')).symm)
  | gap gap =>
    obtain ⟨parent, first, skipped, last, order, opens, closes, missing⟩ := gap
    have opens := perm.mem_iff.mp opens
    have closes := perm.mem_iff.mp closes
    have above := fits.parent?_eq (order.subset List.mem_cons_self)
    obtain rfl : run.parent = parent :=
      Option.some.inj ((block.parent?_eq fits opens).symm.trans above)
    have distinct := fits.nodup run.parent
    obtain ⟨front, back, children, -⟩ := block
    rw [children] at order distinct
    exact missing (perm.mem_iff.mpr (mem_of_between distinct order opens closes))

/-- **A list is refused exactly if something is wrong with it.** -/
theorem run_refused_iff : (∃ fault, form.run ids = .error fault) ↔ form.Unresolvable ids := by
  constructor
  · rintro ⟨fault, refused⟩
    by_contra sound
    obtain ⟨run, perm, block⟩ := wellFormed.exists_block sound
    have nonempty : ids ≠ [] := fun none => sound (.empty none)
    cases refused.symm.trans (wellFormed.run_eq_ok_iff.mpr ⟨nonempty, perm, block⟩)
  · intro wrong
    cases found : form.run ids with
    | error fault => exact ⟨fault, rfl⟩
    | ok run => exact absurd wrong (wellFormed.not_unresolvable found)

end WellFormed

/-! ## Which fault is named -/

theorem runParent_of_unknown {rest : List NodeId} (inner : form.root ∉ id :: rest)
    (missing : ¬ form.contains id) : form.runParent (id :: rest) = .error (.nodeNotFound id) := by
  have absent : (id :: rest).contains form.root = false := by
    rw [Bool.eq_false_iff, ne_eq, List.contains_iff_mem]
    exact inner
  unfold runParent
  simp only [absent, Bool.false_eq_true, if_false, field_of_not_contains missing,
    Question.error_bind]

theorem placeUnder_of_unknown (missing : ¬ form.contains id) :
    form.placeUnder parent id = .error (.nodeNotFound id) := by
  unfold placeUnder
  rw [field_of_not_contains missing, Question.error_bind]

theorem placeUnder_of_apart (stored : form.contains id) (apart : form.parent? id ≠ some parent) :
    form.placeUnder parent id = .error .mixedParents := by
  obtain ⟨field, found⟩ := contains_iff.mp stored
  rw [parent?_of_get? found] at apart
  unfold placeUnder
  rw [field_of_get? found, Question.ok_bind, if_pos apart]
  rfl

namespace LinksFit

variable (fits : form.LinksFit)
include fits

/-- The first field that is not among the children of the parent is complained about. -/
theorem placesUnder_of_error {front back : List NodeId}
    (siblings : ∀ other ∈ front, form.parent? other = some parent)
    (refused : form.placeUnder parent id = .error fault) :
    form.placesUnder parent (front ++ id :: back) = .error fault := by
  induction front with
  | nil =>
    show (form.placeUnder parent id >>= _) = _
    rw [refused, Question.error_bind]
  | cons other front ih =>
    obtain ⟨above, later⟩ := List.forall_mem_cons.mp siblings
    obtain ⟨index, -, stands⟩ := fits.exists_siblingIndex? above
    have placed : form.placeUnder parent other = .ok (index, other) :=
      fits.placeUnder_eq_ok_iff.mpr ⟨rfl, stands⟩
    show (form.placeUnder parent other >>= fun place =>
      form.placesUnder parent (front ++ id :: back) >>= fun places => pure (place :: places)) = _
    rw [placed, Question.ok_bind, ih later, Question.error_bind]

theorem run_of_misplaced {front back : List NodeId} (filled : front ≠ [])
    (inner : form.root ∉ front ++ id :: back)
    (siblings : ∀ other ∈ front, form.parent? other = some parent)
    (refused : form.placeUnder parent id = .error fault) :
    form.run (front ++ id :: back) = .error fault := by
  obtain ⟨first, rest, rfl⟩ := List.exists_cons_of_ne_nil filled
  have above := siblings first List.mem_cons_self
  unfold Form.run
  rw [runParent_of_head rfl inner above, Question.ok_bind,
    fits.placesUnder_of_error siblings refused, Question.error_bind]

/-- With children of one parent, only a gap or a repetition can be wrong. -/
theorem run_of_siblings (filled : ids ≠ []) (inner : form.root ∉ ids)
    (siblings : ∀ id ∈ ids, form.parent? id = some parent) :
    (∃ run, form.run ids = .ok run) ∨ form.run ids = .error .notContiguous := by
  obtain ⟨first, rest, rfl⟩ := List.exists_cons_of_ne_nil filled
  have above := siblings first List.mem_cons_self
  have placed := fits.placesUnder_eq fun id listed => fits.mem_children (siblings id listed)
  unfold Form.run
  rw [runParent_of_head rfl inner above, Question.ok_bind, placed, Question.ok_bind]
  dsimp only
  split
  · exact .inr rfl
  · exact .inl ⟨_, rfl⟩

end LinksFit

/-- Which fault is named for a list of ids that stands for no run. -/
inductive Refuses (form : Form) : List NodeId → Fault → Prop where
  | empty : Refuses form [] .emptyRun
  | root {ids : List NodeId} : form.root ∈ ids → Refuses form ids .rootNotAllowed
  | unknown {front back : List NodeId} {id parent : NodeId} :
      form.root ∉ front ++ id :: back → (∀ other ∈ front, form.parent? other = some parent) →
        ¬ form.contains id → Refuses form (front ++ id :: back) (.nodeNotFound id)
  | apart {front back : List NodeId} {id parent : NodeId} :
      form.root ∉ front ++ id :: back → (∀ other ∈ front, form.parent? other = some parent) →
        front ≠ [] → form.contains id → form.parent? id ≠ some parent →
          Refuses form (front ++ id :: back) .mixedParents
  | broken {ids : List NodeId} {parent : NodeId} :
      form.root ∉ ids → (∀ id ∈ ids, form.parent? id = some parent) → ids ≠ [] →
        ¬ ids.Nodup ∨ form.Gap ids → Refuses form ids .notContiguous

namespace WellFormed

variable (wellFormed : form.WellFormed)
include wellFormed

theorem run_of_refuses (refuses : form.Refuses ids fault) : form.run ids = .error fault := by
  cases refuses with
  | empty => rfl
  | root listed =>
    obtain ⟨first, rest, rfl⟩ := List.exists_cons_of_ne_nil (List.ne_nil_of_mem listed)
    unfold Form.run runParent
    simp only [List.contains_iff_mem.mpr listed, if_true, Question.error_bind]
  | @unknown front back id parent inner siblings missing =>
    by_cases filled : front = []
    · subst filled
      unfold Form.run
      rw [List.nil_append, runParent_of_unknown inner missing, Question.error_bind]
    · exact wellFormed.run_of_misplaced filled inner siblings (placeUnder_of_unknown missing)
  | apart inner siblings filled stored differs =>
    exact wellFormed.run_of_misplaced filled inner siblings (placeUnder_of_apart stored differs)
  | broken inner siblings filled wrong =>
    rcases wellFormed.run_of_siblings filled inner siblings with ⟨run, found⟩ | refused
    · refine absurd ?_ (wellFormed.not_unresolvable found)
      exact wrong.elim .repeated .gap
    · exact refused

/-- Every list stands for a run, or a fault is named. -/
theorem run_cases (ids : List NodeId) :
    (∃ run, form.run ids = .ok run) ∨ ∃ fault, form.Refuses ids fault := by
  by_cases top : form.root ∈ ids
  · exact .inr ⟨_, .root top⟩
  cases ids with
  | nil => exact .inr ⟨_, .empty⟩
  | cons first rest =>
    by_cases stored : form.contains first
    · obtain ⟨parent, above⟩ := wellFormed.exists_parent stored fun same =>
        top (same ▸ List.mem_cons_self)
      cases stranger : (first :: rest).find? fun id => form.parent? id ≠ some parent with
      | none =>
        have siblings : ∀ id ∈ first :: rest, form.parent? id = some parent := fun id listed => by
          simpa using List.find?_eq_none.mp stranger id listed
        rcases wellFormed.run_of_siblings (List.cons_ne_nil _ _) top siblings with found | refused
        · exact .inl found
        · have wrong := wellFormed.run_refused_iff.mp ⟨_, refused⟩
          refine .inr ⟨_, .broken top siblings (List.cons_ne_nil _ _) ?_⟩
          cases wrong with
          | empty none => cases none
          | root listed => exact absurd listed top
          | unknown listed missing =>
            exact absurd (contains_of_parent? (siblings _ listed)) missing
          | repeated again => exact .inl again
          | apart listed listed' differs =>
            exact absurd ((siblings _ listed).trans (siblings _ listed').symm) differs
          | gap gap => exact .inr gap
      | some id =>
        obtain ⟨differs, front, back, split, before⟩ := List.find?_eq_some_iff_append.mp stranger
        have differs : form.parent? id ≠ some parent := by simpa using differs
        have before : ∀ other ∈ front, form.parent? other = some parent := fun other listed => by
          simpa using before other listed
        have filled : front ≠ [] := by
          rintro rfl
          obtain ⟨rfl, -⟩ := List.cons.inj split
          exact differs above
        rw [split] at top ⊢
        by_cases known : form.contains id
        · exact .inr ⟨_, .apart top before filled known differs⟩
        · exact .inr ⟨_, .unknown top before known⟩
    · exact .inr ⟨_, @Refuses.unknown form [] rest first first top nofun stored⟩

/-- **Which fault is named.** -/
theorem run_eq_error_iff : form.run ids = .error fault ↔ form.Refuses ids fault := by
  refine ⟨fun refused => ?_, wellFormed.run_of_refuses⟩
  rcases wellFormed.run_cases ids with ⟨run, found⟩ | ⟨other, refuses⟩
  · cases refused.symm.trans found
  · cases refused.symm.trans (wellFormed.run_of_refuses refuses)
    exact refuses

end WellFormed

/-- **Which lists stand for runs.**  In a valid form these are the lists that name each field of a
block of siblings once, in any order; the run is that block in sibling order, whatever the order of
the list.  A list is refused exactly if it is empty, or names the root, an unknown field, a field
twice or fields of two parents, or leaves a gap; and the fault is that of the first obstacle. -/
theorem resolution_law (valid : form.validate = .ok ()) :
    (∀ ids run, form.run ids = .ok run ↔
      run.ids ≠ [] ∧ ids.Nodup ∧ ids.Perm run.ids ∧
        form.Block run.parent run.start run.ids) ∧
    (∀ ids others run, ids.Perm others → (form.run ids = .ok run ↔ form.run others = .ok run)) ∧
    (∀ ids, (∃ fault, form.run ids = .error fault) ↔ form.Unresolvable ids) ∧
    ∀ ids fault, form.run ids = .error fault ↔ form.Refuses ids fault := by
  have wellFormed := validate_eq_ok_iff.mp valid
  have kept {ids others : List NodeId} {run : Run} (perm : ids.Perm others)
      (found : form.run ids = .ok run) : form.run others = .ok run := by
    obtain ⟨nonempty, listed, block⟩ := wellFormed.run_eq_ok_iff.mp found
    exact wellFormed.run_eq_ok_iff.mpr
      ⟨fun none => nonempty (none ▸ perm).eq_nil, perm.symm.trans listed, block⟩
  refine ⟨fun ids run => ?_, fun ids others run perm => ⟨kept perm, kept perm.symm⟩,
    fun ids => wellFormed.run_refused_iff, fun ids fault => wellFormed.run_eq_error_iff⟩
  rw [wellFormed.run_eq_ok_iff]
  constructor
  · rintro ⟨nonempty, perm, block⟩
    exact ⟨fun none => nonempty (none ▸ perm).eq_nil,
      perm.nodup_iff.mpr (block.nodup wellFormed.toLinksFit), perm, block⟩
  · rintro ⟨filled, -, perm, block⟩
    exact ⟨fun none => filled (none ▸ perm).symm.eq_nil, perm, block⟩

/-- The second and third of three siblings are named backwards; the first and third leave a gap, and
the second and its child have different parents. -/
theorem resolution_law_backwards :
    let form := (Branch.ofOutline ⟨10⟩ (.node .empty
      [.node .empty [], .node .empty [.node .empty []], .node .empty []])).toForm
    form.run [⟨14⟩, ⟨12⟩] = .ok ⟨⟨10⟩, 1, [⟨12⟩, ⟨14⟩]⟩ ∧
    form.run [⟨11⟩, ⟨14⟩] = .error .notContiguous ∧
    form.run [⟨12⟩, ⟨13⟩] = .error .mixedParents := by
  intro form
  have valid : form.validate = .ok () := by decide +kernel
  have children : form.children ⟨10⟩ = [⟨11⟩, ⟨12⟩, ⟨14⟩] := by decide +kernel
  obtain ⟨found, -, -, refused⟩ := resolution_law valid
  have siblings : ∀ id ∈ [(⟨11⟩ : NodeId), ⟨14⟩], form.parent? id = some ⟨10⟩ := by decide +kernel
  have above : ∀ id ∈ [(⟨12⟩ : NodeId)], form.parent? id = some ⟨10⟩ := by decide +kernel
  have gap : form.Gap [⟨11⟩, ⟨14⟩] := by
    refine ⟨⟨10⟩, ⟨11⟩, ⟨12⟩, ⟨14⟩, ?_, by decide, by decide, by decide⟩
    rw [children]
  have backwards := (found [⟨14⟩, ⟨12⟩] ⟨⟨10⟩, 1, [⟨12⟩, ⟨14⟩]⟩).mpr
    ⟨by decide, by decide, by decide, [⟨11⟩], [], children, rfl⟩
  have broken := (refused _ _).mpr (.broken (by decide +kernel) siblings (by decide) (.inr gap))
  have apart := (refused _ _).mpr (@Refuses.apart form [⟨12⟩] [] ⟨13⟩ ⟨10⟩ (by decide +kernel) above
    (by decide) (by decide +kernel) (by decide +kernel))
  exact ⟨backwards, broken, apart⟩

end FormEditor.Form
