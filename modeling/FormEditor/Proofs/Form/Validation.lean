import FormEditor.Proofs.Form.Documents

/-!
# Validation of arbitrary links

Validation checks fields one by one, in whatever order the storage lists them, and then counts
what a walk from the root meets.  The walk keeps a stack of ids and knows nothing about links that
lead in circles (`FieldMap.Walk`): where a field lists itself it does not come to an end
(`Walk.not_mem_children`).  The checks that are made first exclude this.  Where they pass, the walk
ends and meets the fields in document order (`LinksFit.walk_preorder`).

Main statement: validation in any order comes to exactly one verdict, and the verdict is good
exactly for the forms whose links fit together and all of whose fields are in reach of the root
(`validation_decides`).  Loading accepts exactly the documents of these.
-/

set_option autoImplicit false

namespace FormEditor

/-! ## The walk with a stack -/

/-- `Walk fields stack met` says that the walk that has the ids of `stack` before it, the next one
first, comes to an end and meets the fields `met`.  It passes over ids that are not stored. -/
inductive FieldMap.Walk (fields : FieldMap) : List NodeId → List Field → Prop where
  | done : Walk fields [] []
  | skip {id : NodeId} {stack : List NodeId} {met : List Field} :
      fields[id]? = none → Walk fields stack met → Walk fields (id :: stack) met
  | visit {id : NodeId} {field : Field} {stack : List NodeId} {met : List Field} :
      fields[id]? = some field → Walk fields (field.children ++ stack) met →
        Walk fields (id :: stack) (field :: met)

namespace FieldMap.Walk

variable {fields : FieldMap} {id : NodeId} {field : Field} {stack front back : List NodeId}
  {met met' : List Field}

/-- A walk has one course. -/
theorem unique (walk : Walk fields stack met) (walk' : Walk fields stack met') : met = met' := by
  induction walk generalizing met' with
  | done =>
    cases walk'
    rfl
  | skip missing _ ih =>
    cases walk' with
    | skip _ rest => exact ih rest
    | visit stored _ => cases missing.symm.trans stored
  | visit stored _ ih =>
    cases walk' with
    | skip missing _ => cases missing.symm.trans stored
    | visit stored' rest =>
      cases stored.symm.trans stored'
      rw [ih rest]

/-- A walk finishes the upper part of its stack before it comes to the lower part. -/
theorem split (walk : Walk fields (front ++ back) met) :
    ∃ first last, met = first ++ last ∧ Walk fields front first ∧ Walk fields back last := by
  generalize whole : front ++ back = stack at walk
  induction walk generalizing front with
  | done =>
    obtain ⟨rfl, rfl⟩ := List.append_eq_nil_iff.mp whole
    exact ⟨[], [], rfl, .done, .done⟩
  | @skip id stack met missing rest ih =>
    cases front with
    | nil =>
      subst whole
      exact ⟨[], met, rfl, .done, .skip missing rest⟩
    | cons top front =>
      obtain ⟨rfl, below⟩ := List.cons.inj whole
      obtain ⟨first, last, same, upper, lower⟩ := ih below
      exact ⟨first, last, same, .skip missing upper, lower⟩
  | @visit id field stack met stored rest ih =>
    cases front with
    | nil =>
      subst whole
      exact ⟨[], field :: met, rfl, .done, .visit stored rest⟩
    | cons top front =>
      obtain ⟨rfl, rfl⟩ := List.cons.inj whole
      obtain ⟨first, last, same, upper, lower⟩ := ih (List.append_assoc ..)
      exact ⟨field :: first, last, congrArg (field :: ·) same, .visit stored upper, lower⟩

/-- Ids on top of a stack are walked down from one after the other. -/
theorem append {walkFrom : NodeId → List Field}
    (each : ∀ id ∈ front, ∀ stack met, Walk fields stack met →
      Walk fields (id :: stack) (walkFrom id ++ met))
    (rest : Walk fields back met) :
    Walk fields (front ++ back) (front.flatMap walkFrom ++ met) := by
  induction front with
  | nil => exact rest
  | cons id front ih =>
    obtain ⟨here, others⟩ := List.forall_mem_cons.mp each
    rw [List.flatMap_cons, List.append_assoc]
    exact here _ _ (ih others)

/-- A walk that ends does not start at a field that lists itself. -/
theorem not_mem_children (stored : fields[id]? = some field)
    (walk : Walk fields (id :: stack) met) : id ∉ field.children := by
  intro listed
  obtain ⟨front, back, children⟩ := List.append_of_mem listed
  -- the walk would come to the field again, with less left to meet
  induction size : met.length using Nat.strongRecOn generalizing stack met with
  | ind count ih =>
    cases walk with
    | skip missing _ => cases missing.symm.trans stored
    | visit stored' rest =>
      cases stored.symm.trans stored'
      rw [children, List.append_assoc, List.cons_append] at rest
      obtain ⟨first, last, rfl, -, again⟩ := rest.split
      refine ih last.length ?_ again rfl
      rw [← size, List.length_cons, List.length_append]
      omega

end FieldMap.Walk

namespace Form

variable {form : Form} {id : NodeId} {stack : List NodeId} {met : List Field}

/-- Where links agree, a walk down from a field in reach of a top ends after what the walk by
levels meets, if that one goes as deep as there are fields. -/
theorem LinksFit.walk_preorderFrom (fits : form.LinksFit) {depth : Nat} {line : List NodeId}
    (lineage : form.Lineage id line) (stored : form.contains id)
    (enough : form.size < depth + line.length) (rest : form.fields.Walk stack met) :
    form.fields.Walk (id :: stack) (form.fields.preorderFrom depth id ++ met) := by
  induction depth generalizing id line stack met with
  | zero =>
    have short := lineage.length_le fits stored
    omega
  | succ depth ih =>
    obtain ⟨field, found⟩ := contains_iff.mp stored
    rw [preorderFrom_succ found]
    refine .visit found (.append (fun child listed below after rest => ?_) rest)
    rw [← children_of_get? found] at listed
    have above := fits.parent?_eq listed
    refine ih (.step above lineage) (contains_of_parent? above) ?_ rest
    rw [List.length_cons]
    omega

/-- Where links agree, the walk from the root ends and meets the fields in document order. -/
theorem LinksFit.walk_preorder (fits : form.LinksFit) :
    form.fields.Walk [form.root] form.preorder := by
  have walk := fits.walk_preorderFrom (.topmost fits.root_top) fits.root_stored
    (Nat.lt_succ_self form.size) .done
  rwa [List.append_nil] at walk

/-! ## Verdicts -/

/-- The checks of validation that look at one field at a time, made in the order of `entries`. -/
def checkLinks (form : Form) (entries : List (NodeId × Field)) : Except Fault Unit := do
  if !form.contains form.root then throw (.nodeNotFound form.root)
  if (form.parent? form.root).isSome then throw (.defect .rootHasParent)
  entries.forM fun (key, field) => form.checkField key field

/-- `Validates form entries verdict` says that validation comes to an end with a verdict, if the
fields are checked in the order of `entries` and then counted on a walk with a stack. -/
inductive Validates (form : Form) (entries : List (NodeId × Field)) : Except Fault Unit → Prop where
  | refused {fault : Fault} :
      form.checkLinks entries = .error fault → Validates form entries (.error fault)
  | short {met : List Field} :
      form.checkLinks entries = .ok () → form.fields.Walk [form.root] met →
        met.length ≠ form.size → Validates form entries (.error (.defect .unreachable))
  | full {met : List Field} :
      form.checkLinks entries = .ok () → form.fields.Walk [form.root] met →
        met.length = form.size → Validates form entries (.ok ())

variable {entries : List (NodeId × Field)} {verdict verdict' : Except Fault Unit}

open Question in
/-- The checks pass when every field passes its own, in whatever order they are made. -/
theorem checkLinks_eq_ok_iff (order : entries.Perm form.fields.toList) :
    form.checkLinks entries = .ok () ↔
      form.contains form.root ∧ form.parent? form.root = none ∧
        ∀ id field, form.get? id = some field → form.checkField id field = .ok () := by
  rw [← checkFields_eq_ok_iff order]
  unfold checkLinks
  cases form.contains form.root with
  | false => simp [throw_eq, error_bind]
  | true => cases form.parent? form.root <;> simp [throw_eq, error_bind]

theorem LinksFit.of_checkLinks (order : entries.Perm form.fields.toList)
    (passed : form.checkLinks entries = .ok ()) : form.LinksFit := by
  obtain ⟨rootStored, rootTop, checked⟩ := (checkLinks_eq_ok_iff order).mp passed
  exact LinksFit.of_checks rootStored rootTop checked

theorem Validates.unique (first : form.Validates entries verdict)
    (second : form.Validates entries verdict') : verdict = verdict' := by
  cases first with
  | refused fails =>
    cases second with
    | refused fails' => exact fails.symm.trans fails'
    | short passed | full passed => cases fails.symm.trans passed
  | short passed walk less =>
    cases second with
    | refused fails => cases fails.symm.trans passed
    | short => rfl
    | full _ walk' all => exact absurd (walk.unique walk' ▸ all) less
  | full passed walk all =>
    cases second with
    | refused fails => cases fails.symm.trans passed
    | short _ walk' less => exact absurd (walk.unique walk' ▸ all) less
    | full => rfl

/-- Validation always comes to an end: the walk is made only where it ends. -/
theorem exists_validates (order : entries.Perm form.fields.toList) :
    ∃ verdict, form.Validates entries verdict := by
  cases checked : form.checkLinks entries with
  | error fault => exact ⟨_, .refused checked⟩
  | ok passed =>
    have walk := (LinksFit.of_checkLinks order checked).walk_preorder
    by_cases all : form.preorder.length = form.size
    · exact ⟨_, .full checked walk all⟩
    · exact ⟨_, .short checked walk all⟩

/-- The order of the checks does not matter for a good verdict. -/
theorem validates_ok_iff (order : entries.Perm form.fields.toList) :
    form.Validates entries (.ok ()) ↔ form.WellFormed := by
  constructor
  · intro validates
    cases validates with
    | full passed walk all =>
      have fits := LinksFit.of_checkLinks order passed
      rw [walk.unique fits.walk_preorder] at all
      exact { fits with reached := fits.length_preorder_eq_iff.mp all }
  · intro wellFormed
    have fits := wellFormed.toLinksFit
    have passed : form.checkLinks entries = .ok () := (checkLinks_eq_ok_iff order).mpr
      ⟨fits.root_stored, fits.root_top, fun _ _ stored => wellFormed.checkField_eq_ok stored⟩
    exact .full passed fits.walk_preorder (fits.length_preorder_eq_iff.mpr wellFormed.reached)

/-- `validate` comes to the verdict of the procedure that it stands for. -/
theorem validates_validate : form.Validates form.fields.toList form.validate := by
  have unfolded : form.validate = form.checkLinks form.fields.toList >>= fun _ =>
      if form.preorder.length ≠ form.size then throw (.defect .unreachable) else pure () := by
    unfold validate checkLinks
    cases form.contains form.root with
    | false => rfl
    | true => cases form.parent? form.root <;> rfl
  rw [unfolded]
  cases checked : form.checkLinks form.fields.toList with
  | error fault => exact .refused checked
  | ok passed =>
    have walk := (LinksFit.of_checkLinks (.refl _) checked).walk_preorder
    rw [Question.ok_bind]
    by_cases all : form.preorder.length = form.size
    · rw [if_neg (not_not_intro all)]
      exact .full checked walk all
    · rw [if_pos all]
      exact .short checked walk all

/-! ## What is accepted -/

/-- Loading gives the form that a document describes, if that form is valid. -/
theorem ofJson_eq_ok_iff {document : Json} :
    ofJson document = .ok form ↔ partsOfJson? document = some form ∧ form.validate = .ok () := by
  unfold ofJson
  cases partsOfJson? document with
  | none => simp
  | some found =>
    dsimp only
    cases verdict : found.validate with
    | error fault =>
      refine iff_of_false (fun equal => nomatch equal) ?_
      rintro ⟨same, valid⟩
      cases same
      cases verdict.symm.trans valid
    | ok passed =>
      simp only [Except.ok.injEq, Option.some.injEq, iff_self_and]
      rintro rfl
      exact verdict

/-- The document of a form is loaded exactly if the form is well-formed. -/
theorem ofJson_toJsonInOrder_iff (writable : form.Writable)
    (order : entries.Perm form.fields.toList) :
    ofJson (form.toJsonInOrder NodeId.text entries) = .ok form.dimmed ↔ form.WellFormed := by
  rw [ofJson_eq_ok_iff, partsOfJson?_toJsonInOrder writable order, validate_eq_ok_iff,
    and_iff_right rfl]
  exact ⟨alike_dimmed.symm.wellFormed, alike_dimmed.wellFormed⟩

/-- A form is well-formed when these conditions hold of its stored fields. -/
theorem wellFormed_iff :
    form.WellFormed ↔
      (form.contains form.root ∧ form.parent? form.root = none) ∧
      (∀ id field, form.get? id = some field → field.id = id) ∧
      (∀ parent, form.contains parent → ∀ child,
        (child ∈ form.children parent ↔ form.parent? child = some parent) ∧
          (child ∈ form.children parent → (form.children parent).count child = 1)) ∧
      ∀ id, form.contains id → form.Under form.root id := by
  constructor
  · intro wellFormed
    have once : ∀ parent child, child ∈ form.children parent →
        (form.children parent).count child = 1 := fun parent child listed => by
      rw [(wellFormed.nodup parent).count, if_pos listed]
    exact ⟨⟨wellFormed.root_stored, wellFormed.root_top⟩,
      fun _ _ stored => wellFormed.own_id stored,
      fun parent _ child => ⟨wellFormed.listed_iff, once parent child⟩,
      fun _ stored => wellFormed.reached stored⟩
  · rintro ⟨⟨rootStored, rootTop⟩, ownId, listed, reached⟩
    -- a parent that is not stored would be out of reach of the root
    have parentStored : ∀ {parent child}, form.parent? child = some parent →
        form.contains parent := by
      intro parent child above
      have under := reached child (contains_of_parent? above)
      cases under with
      | here => cases rootTop.symm.trans above
      | step above' rest =>
        obtain rfl : _ = _ := Option.some.inj (above.symm.trans above')
        cases rest with
        | here => exact rootStored
        | step further _ => exact contains_of_parent? further
    refine
      { root_stored := rootStored
        root_top := rootTop
        own_id := ownId _ _
        listed_iff := ⟨fun member => ?_, fun above => ?_⟩
        nodup := fun parent => ?_
        reached := reached _ }
    · exact (listed _ (contains_of_mem_children member) _).1.mp member
    · exact (listed _ (parentStored above) _).1.mpr above
    · refine List.nodup_iff_count.mpr fun child => ?_
      by_cases member : child ∈ form.children parent
      · exact Nat.le_of_eq ((listed _ (contains_of_mem_children member) _).2 member)
      · rw [List.count_eq_zero_of_not_mem member]
        exact Nat.zero_le 1

/-- **Validation decides which forms are well-formed, and always ends.**  In whatever order fields
are checked there is exactly one verdict; the form is accepted exactly if its root is stored and has
no parent, fields are stored under their own ids, a stored field lists exactly those that name it
as their parent, each of them once, and parents lead from every stored field to the root.  A
document is loaded as a form exactly if it describes the form and that form is accepted.  The
document of a form describes it but for its highlights, in whatever order it lists the fields. -/
theorem validation_decides (order : entries.Perm form.fields.toList) :
    (∃ verdict, form.Validates entries verdict ∧
      ∀ other, form.Validates entries other → other = verdict) ∧
    (form.Validates entries (.ok ()) ↔
      (form.contains form.root ∧ form.parent? form.root = none) ∧
      (∀ id field, form.get? id = some field → field.id = id) ∧
      (∀ parent, form.contains parent → ∀ child,
        (child ∈ form.children parent ↔ form.parent? child = some parent) ∧
          (child ∈ form.children parent → (form.children parent).count child = 1)) ∧
      ∀ id, form.contains id → form.Under form.root id) ∧
    (form.validate = .ok () ↔ form.Validates entries (.ok ())) ∧
    (∀ document, ofJson document = .ok form ↔
      partsOfJson? document = some form ∧ form.Validates entries (.ok ())) ∧
    (form.Writable → ∀ listed, listed.Perm form.fields.toList →
      partsOfJson? (form.toJsonInOrder NodeId.text listed) = some form.dimmed ∧
        (ofJson (form.toJsonInOrder NodeId.text listed) = .ok form.dimmed ↔
          form.Validates entries (.ok ()))) := by
  obtain ⟨verdict, validates⟩ := exists_validates order
  have accepted : form.validate = .ok () ↔ form.Validates entries (.ok ()) :=
    validate_eq_ok_iff.trans (validates_ok_iff order).symm
  refine ⟨⟨verdict, validates, fun other validates' => validates'.unique validates⟩,
    (validates_ok_iff order).trans wellFormed_iff, accepted, fun document => ?_,
    fun writable listed order' => ⟨partsOfJson?_toJsonInOrder writable order', ?_⟩⟩
  · rw [ofJson_eq_ok_iff, accepted]
  · exact (ofJson_toJsonInOrder_iff writable order').trans (validates_ok_iff order).symm

/-- A blank protocol is accepted with its fields checked backwards, and loaded with its fields
listed backwards.  With two further fields that name each other as parent and child it is neither,
though its document describes it. -/
theorem validation_decides_backwards :
    let tree := blankProtocol ⟨10⟩
    let circle : Form := { tree with
      fields := (tree.fields.insert ⟨20⟩
        { Field.fresh ⟨20⟩ .empty with parent := some ⟨21⟩, children := [⟨21⟩] }).insert ⟨21⟩
        { Field.fresh ⟨21⟩ .empty with parent := some ⟨20⟩, children := [⟨20⟩] } }
    let backwards (form : Form) : Json :=
      form.toJsonInOrder NodeId.text form.fields.toList.reverse
    tree.Validates tree.fields.toList.reverse (.ok ()) ∧
      ¬ circle.Validates circle.fields.toList.reverse (.ok ()) ∧
      ofJson (backwards tree) = .ok tree.dimmed ∧
      partsOfJson? (backwards circle) = some circle.dimmed ∧
      ofJson (backwards circle) ≠ .ok circle.dimmed := by
  intro tree circle backwards
  obtain ⟨-, -, accepted, -, loaded⟩ :=
    validation_decides (List.reverse_perm tree.fields.toList)
  obtain ⟨-, -, refused, -, described⟩ :=
    validation_decides (List.reverse_perm circle.fields.toList)
  have good : tree.Validates tree.fields.toList.reverse (.ok ()) :=
    accepted.mp (by decide +kernel)
  have bad : ¬ circle.Validates circle.fields.toList.reverse (.ok ()) :=
    mt refused.mpr (by decide +kernel)
  obtain ⟨-, tree_iff⟩ := loaded (writable_of_entries (by decide) (by decide +kernel)) _
    (List.reverse_perm _)
  obtain ⟨parts, circle_iff⟩ := described (writable_of_entries (by decide) (by decide +kernel)) _
    (List.reverse_perm _)
  exact ⟨good, bad, tree_iff.mpr good, parts, mt circle_iff.mp bad⟩

end Form

end FormEditor
