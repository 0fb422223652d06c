import FormEditor.Form.Growth
import FormEditor.Proofs.Form.Blocks
import Mathlib.Data.List.Pairwise

/-!
# Taking several fields out and putting them back

Branches that are taken out one after the other are put back in the opposite order, so that each
of them finds the form as it left it.  `Form.Removable` says which fields may be taken out in this
way, `Form.Restorable` which branches may be put back.

Main statements: what was taken out may be put back, and then the form looks as before
(`WellFormed.exists_detachAll`); what was put back may be taken out again, and then the form is
as before (`detachAll_restored`).  A block of new siblings is put back from left to right instead,
with the same result (`attachAll_of_restorable`).
-/

set_option autoImplicit false

namespace FormEditor.Form

variable {form : Form} {id other top parent : NodeId} {ids : List NodeId} {place : Position}
  {branch : Branch} {removals : List Removal} {start : Nat}

/-! ## Fields that may be taken out -/

/-- Fields that may be taken out one after the other: they are in the form, the root is not
among them, and none of them lies above another. -/
structure Removable (form : Form) (ids : List NodeId) : Prop where
  stored : ∀ {id : NodeId}, id ∈ ids → form.contains id
  inner : ∀ {id : NodeId}, id ∈ ids → id ≠ form.root
  apart : ids.Pairwise fun id other => ¬ form.Under id other ∧ ¬ form.Under other id

theorem Removable.nodup (removable : form.Removable ids) : ids.Nodup :=
  removable.apart.imp fun {id other} apart (same : id = other) => apart.1 (same ▸ .here)

theorem Removable.not_under (removable : form.Removable ids) (listed : id ∈ ids)
    (otherListed : other ∈ ids) (different : id ≠ other) : ¬ form.Under id other := by
  have symmetric : Std.Symm fun id other => ¬ form.Under id other ∧ ¬ form.Under other id :=
    ⟨fun _ _ both => both.symm⟩
  exact (removable.apart.forall listed otherListed different).1

/-- The siblings of a block may be taken out. -/
theorem Block.removable (block : form.Block parent start ids) (wellFormed : form.WellFormed) :
    form.Removable ids where
  stored := block.contains wellFormed.toLinksFit
  inner := block.ne_root wellFormed.toLinksFit
  apart := (block.nodup wellFormed.toLinksFit).imp_of_mem fun listed otherListed different =>
    ⟨block.not_under wellFormed listed otherListed different,
      block.not_under wellFormed otherListed listed (Ne.symm different)⟩

theorem Alike.removable {α : Type} {view : Attributes → α} {left right : Form}
    (alike : left.Alike view right) (removable : left.Removable ids) : right.Removable ids where
  stored := fun listed => alike.contains_eq ▸ removable.stored listed
  inner := fun listed => alike.1 ▸ removable.inner listed
  apart := removable.apart.imp fun apart =>
    ⟨fun under => apart.1 (alike.symm.under under), fun under => apart.2 (alike.symm.under under)⟩

theorem Removable.exists_standsAt (removable : form.Removable (id :: ids))
    (wellFormed : form.WellFormed) : ∃ place, form.StandsAt id place :=
  wellFormed.exists_standsAt (removable.stored List.mem_cons_self)
    (removable.inner List.mem_cons_self)

/-- Once the first field is out, the others may still be taken out. -/
theorem Removable.without (removable : form.Removable (id :: ids))
    (wellFormed : form.WellFormed) : (form.without id place).Removable ids := by
  obtain ⟨first, rest⟩ := List.pairwise_cons.mp removable.apart
  refine ⟨fun listed => ?_, fun listed => removable.inner (List.mem_cons_of_mem id listed), ?_⟩
  · exact wellFormed.contains_without.mpr
      ⟨removable.stored (List.mem_cons_of_mem id listed), (first _ listed).1⟩
  · refine rest.imp_of_mem ?_
    intro id other listed otherListed apart
    rw [wellFormed.under_without_iff (first _ listed).1,
      wellFormed.under_without_iff (first _ otherListed).1]
    exact apart

/-! ## Branches that may be put back -/

/-- The form with branches put back, the last one first. -/
def restored (form : Form) : List Removal → Form
  | [] => form
  | removal :: removals =>
    (form.restored removals).attached removal.position.parent removal.position.index
      removal.branch

/-- Branches that may be put back, the last one first; none of them goes into a branch that is put
back with it. -/
def Restorable (form : Form) : List Removal → Prop
  | [] => True
  | removal :: removals =>
    form.Restorable removals ∧ removal.branch.Whole ∧
      (form.restored removals).Attachable removal.position removal.branch ∧
        ∀ later ∈ removals, ¬ later.branch.toForm.contains removal.position.parent

@[simp] theorem root_restored : (form.restored removals).root = form.root := by
  induction removals with
  | nil => rfl
  | cons removal removals ih => exact ih

theorem Restorable.wellFormed_restored (restorable : form.Restorable removals)
    (wellFormed : form.WellFormed) : (form.restored removals).WellFormed := by
  induction removals with
  | nil => exact wellFormed
  | cons removal removals ih =>
    obtain ⟨rest, whole, able, -⟩ := restorable
    exact able.wellFormed_attached (ih rest) whole

theorem restoreFields_of_restorable (restorable : form.Restorable removals) :
    restoreFields removals form = .ok (removals.map Removal.id) (form.restored removals) := by
  induction removals with
  | nil => rfl
  | cons removal removals ih =>
    obtain ⟨rest, -, able, -⟩ := restorable
    have unfolded : restoreFields (removal :: removals) =
        (restoreFields removals >>= fun restored =>
          attach removal.position.parent removal.position.index removal.branch >>= fun _ =>
            pure (removal.id :: restored)) := rfl
    rw [unfolded, Step.bind_of_ok (ih rest), Step.bind_of_ok (attach_of_attachable able)]
    rfl

theorem Alike.restored {α : Type} {view : Attributes → α} {left right : Form}
    (alike : left.Alike view right) :
    (left.restored removals).Alike view (right.restored removals) := by
  induction removals with
  | nil => exact alike
  | cons removal removals ih => exact ih.attached

theorem Alike.restorable {α : Type} {view : Attributes → α} {left right : Form}
    (alike : left.Alike view right) (restorable : left.Restorable removals) :
    right.Restorable removals := by
  induction removals with
  | nil => trivial
  | cons removal removals ih =>
    obtain ⟨rest, whole, able, apart⟩ := restorable
    exact ⟨ih rest, whole, alike.restored.attachable able, apart⟩

/-- What is stored in the form with branches put back. -/
theorem Restorable.contains_restored (restorable : form.Restorable removals) :
    (form.restored removals).contains other ↔
      form.contains other ∨ ∃ removal ∈ removals, removal.branch.toForm.contains other := by
  induction removals with
  | nil => simp [Form.restored]
  | cons removal removals ih =>
    obtain ⟨rest, -, able, -⟩ := restorable
    have step : (form.restored (removal :: removals)).contains other ↔
        removal.branch.toForm.contains other ∨ (form.restored removals).contains other :=
      able.contains_attached
    rw [step, ih rest, List.exists_mem_cons_iff]
    exact or_left_comm

theorem Restorable.whole (restorable : form.Restorable removals) {removal : Removal}
    (listed : removal ∈ removals) : removal.branch.Whole := by
  induction removals with
  | nil => cases listed
  | cons first removals ih =>
    obtain ⟨rest, whole, -, -⟩ := restorable
    rcases List.mem_cons.mp listed with rfl | listed
    · exact whole
    · exact ih rest listed

/-- What lies at and below the root of a branch that was put back is the branch. -/
theorem Restorable.under_restored_iff (restorable : form.Restorable removals)
    (wellFormed : form.WellFormed) {removal : Removal} (listed : removal ∈ removals)
    (stored : (form.restored removals).contains other) :
    (form.restored removals).Under removal.id other ↔ removal.branch.toForm.contains other := by
  induction removals generalizing other with
  | nil => cases listed
  | cons first removals ih =>
    obtain ⟨rest, whole, able, apart⟩ := restorable
    have before := rest.wellFormed_restored wellFormed
    rcases List.mem_cons.mp listed with rfl | listed
    · exact able.under_root_iff before whole stored
    · have outside : ∀ {key}, removal.branch.toForm.contains key →
          ¬ first.branch.toForm.contains key := fun inside again =>
        able.apart again (rest.contains_restored.mpr (.inr ⟨removal, listed, inside⟩))
      have rootOutside := outside (rest.whole listed).root_stored
      rcases able.contains_attached.mp stored with inFirst | stayed
      · -- a field of the first branch is reached only through the parent of that branch
        refine iff_of_false (fun under => ?_) fun inside => outside inside inFirst
        have upper := (able.under_root_iff before whole stored).mpr inFirst
        have above := able.parent?_root whole.root_stored
        rcases under.comparable upper with lower | higher
        · rcases lower.eq_or_beneath with same | ⟨parent, above', under'⟩
          · have same : first.branch.root = removal.branch.root := same
            exact rootOutside (same ▸ whole.root_stored)
          · obtain rfl : _ = _ := Option.some.inj (above.symm.trans above')
            have reach := (able.under_iff before able.parent_stored).mp under'
            exact apart removal listed ((ih rest listed able.parent_stored).mp reach)
        · have rootStored := able.contains_attached.mpr
            (.inr (rest.contains_restored.mpr
              (.inr ⟨removal, listed, (rest.whole listed).root_stored⟩)))
          exact rootOutside ((able.under_root_iff before whole rootStored).mp higher)
      · exact (able.under_iff before stayed).trans (ih rest listed stayed)

/-- The root of a branch that was put back has the parent that was asked for. -/
theorem Restorable.parent?_restored (restorable : form.Restorable removals) {removal : Removal}
    (listed : removal ∈ removals) :
    (form.restored removals).parent? removal.id = some removal.position.parent := by
  induction removals with
  | nil => cases listed
  | cons first removals ih =>
    obtain ⟨rest, whole, able, -⟩ := restorable
    rcases List.mem_cons.mp listed with rfl | listed
    · exact able.parent?_root whole.root_stored
    · have outside : ¬ first.branch.toForm.contains removal.id := fun inside =>
        able.apart inside (contains_of_parent? (ih rest listed))
      exact (parent?_attached_of_not_branch outside).trans (ih rest listed)

/-- Branches that may be put back have no field of the form. -/
theorem Restorable.not_contains (restorable : form.Restorable removals) {removal : Removal}
    (listed : removal ∈ removals) (inside : removal.branch.toForm.contains other) :
    ¬ form.contains other := by
  induction removals with
  | nil => cases listed
  | cons first removals ih =>
    obtain ⟨rest, -, able, -⟩ := restorable
    rcases List.mem_cons.mp listed with rfl | listed
    · exact fun stored => able.apart inside (rest.contains_restored.mpr (.inl stored))
    · exact ih rest listed

/-- Branches that may be put back together have no field in common. -/
theorem Restorable.apart (restorable : form.Restorable removals) :
    removals.Pairwise fun removal later => ∀ id : NodeId,
      removal.branch.toForm.contains id → ¬ later.branch.toForm.contains id := by
  induction removals with
  | nil => exact .nil
  | cons first removals ih =>
    obtain ⟨rest, -, able, -⟩ := restorable
    refine .cons (fun later listed key inside again => ?_) (ih rest)
    exact able.apart inside (rest.contains_restored.mpr (.inr ⟨later, listed, again⟩))

/-- What was put back may be taken out again. -/
theorem Restorable.removable_restored (restorable : form.Restorable removals)
    (wellFormed : form.WellFormed) :
    (form.restored removals).Removable (removals.map Removal.id) := by
  have grown := restorable.wellFormed_restored wellFormed
  refine ⟨fun listed => ?_, fun listed => ?_, List.pairwise_map.mpr ?_⟩
  · obtain ⟨removal, member, rfl⟩ := List.mem_map.mp listed
    exact contains_of_parent? (restorable.parent?_restored member)
  · obtain ⟨removal, member, rfl⟩ := List.mem_map.mp listed
    exact grown.ne_root (restorable.parent?_restored member)
  · refine restorable.apart.imp_of_mem fun {removal later} listed laterListed apart => ?_
    have stored := contains_of_parent? (restorable.parent?_restored listed)
    have laterStored := contains_of_parent? (restorable.parent?_restored laterListed)
    rw [restorable.under_restored_iff wellFormed listed laterStored,
      restorable.under_restored_iff wellFormed laterListed stored]
    exact ⟨fun inside => apart _ inside (restorable.whole laterListed).root_stored,
      apart _ (restorable.whole listed).root_stored⟩

/-! ## Taking out -/

/-- What taking fields out of a form leaves and gives. -/
structure Taken (form : Form) (ids : List NodeId) (removals : List Removal) (after : Form) :
    Prop where
  wellFormed : after.WellFormed
  named : removals.map Removal.id = ids
  restorable : after.Restorable removals
  alike_restored : (after.restored removals).Alike (fun bag => bag) form
  root : after.root = form.root
  contains_iff : ∀ {id : NodeId},
    after.contains id ↔ form.contains id ∧ ∀ top ∈ ids, ¬ form.Under top id
  inside : ∀ {removal : Removal} {id : NodeId}, removal ∈ removals →
    removal.branch.toForm.contains id → form.contains id ∧ form.Under removal.id id

theorem detachAll_cons {after : Form} {branch : Branch}
    (first : detach id form = .ok (place, branch) after) {last : Form}
    (rest : detachAll ids after = .ok removals last) :
    detachAll (id :: ids) form = .ok (⟨place, branch⟩ :: removals) last := by
  have unfolded : detachAll (id :: ids) = (detach id >>= fun taken =>
      detachAll ids >>= fun removals => pure (⟨taken.1, taken.2⟩ :: removals)) := rfl
  rw [unfolded, Step.bind_of_ok first, Step.bind_of_ok rest]
  rfl

/-- **What was taken out may be put back, and then the form looks as before.** -/
theorem WellFormed.exists_detachAll (wellFormed : form.WellFormed)
    (removable : form.Removable ids) :
    ∃ removals after, detachAll ids form = .ok removals after ∧
      form.Taken ids removals after := by
  induction ids generalizing form with
  | nil =>
    refine ⟨[], form, rfl, wellFormed, rfl, trivial, Alike.refl form, rfl, ?_, ?_⟩
    · intro id
      exact ⟨fun stored => ⟨stored, fun _ listed => absurd listed List.not_mem_nil⟩, And.left⟩
    · intro removal id listed
      cases listed
  | cons id ids ih =>
    obtain ⟨place, stands⟩ := removable.exists_standsAt wellFormed
    have above := wellFormed.parent?_of_standsAt stands
    have shrunk := wellFormed.wellFormed_without stands
    obtain ⟨removals, after, done, taken⟩ := ih shrunk (removable.without wellFormed)
    have apart := (List.pairwise_cons.mp removable.apart).1
    -- the branches taken later lie below other listed fields of the form as it was
    have later : ∀ {removal key}, removal ∈ removals → removal.branch.toForm.contains key →
        removal.id ∈ ids ∧ form.contains key ∧ form.Under removal.id key := by
      intro removal key listed inside
      obtain ⟨stored, under⟩ := taken.inside listed inside
      obtain ⟨stored, stays⟩ := wellFormed.contains_without.mp stored
      exact ⟨taken.named ▸ List.mem_map_of_mem listed, stored,
        (wellFormed.under_without_iff stays).mp under⟩
    have able : (after.restored removals).Attachable place (form.branchAt id place) :=
      taken.alike_restored.symm.attachable (wellFormed.attachable_without stands)
    refine ⟨_, after, detachAll_cons (wellFormed.detach_of_standsAt stands) done,
      taken.wellFormed, ?_, ?_, ?_, taken.root, ?_, ?_⟩
    · rw [List.map_cons, taken.named]
      rfl
    · refine ⟨taken.restorable, wellFormed.whole_branchAt stands, able, ?_⟩
      intro removal listed inside
      obtain ⟨named, -, under⟩ := later listed inside
      exact (apart _ named).2 (.step above under)
    · have attached : ((after.restored removals).attached place.parent place.index
          (form.branchAt id place)).Alike (fun bag => bag) ((form.without id place).attached
            place.parent place.index (form.branchAt id place)) := taken.alike_restored.attached
      rw [wellFormed.attached_without stands] at attached
      exact attached.trans Alike.setHighlighted
    · intro key
      rw [taken.contains_iff, wellFormed.contains_without, List.forall_mem_cons]
      constructor
      · rintro ⟨⟨stored, stays⟩, others⟩
        exact ⟨stored, stays, fun top listed under =>
          others top listed ((wellFormed.under_without_iff stays).mpr under)⟩
      · rintro ⟨stored, stays, others⟩
        exact ⟨⟨stored, stays⟩, fun top listed under =>
          others top listed ((wellFormed.under_without_iff stays).mp under)⟩
    · intro removal key listed inside
      rcases List.mem_cons.mp listed with rfl | listed
      · exact (wellFormed.contains_branchAt stands).mp inside
      · exact (later listed inside).2

/-- **What was put back may be taken out again, and then the form is as before.** -/
theorem Restorable.detachAll_restored (restorable : form.Restorable removals)
    (wellFormed : form.WellFormed) :
    ∃ removals', detachAll (removals.map Removal.id) (form.restored removals) =
      .ok removals' form := by
  induction removals with
  | nil => exact ⟨[], rfl⟩
  | cons removal removals ih =>
    obtain ⟨rest, whole, able, -⟩ := restorable
    have before := rest.wellFormed_restored wellFormed
    have grown := able.wellFormed_attached before whole
    obtain ⟨removals', done⟩ := ih rest
    have first := grown.detach_of_standsAt (WellFormed.standsAt_attached able)
    rw [before.without_attached whole able] at first
    exact ⟨_, detachAll_cons first done⟩

/-- Forms that look alike still do when the same fields are taken out of both. -/
theorem Alike.detachAll {α : Type} {view : Attributes → α} {left right : Form}
    (alike : left.Alike view right) (wellFormed : left.WellFormed)
    (removable : left.Removable ids) {removals removals' : List Removal} {after after' : Form}
    (done : Form.detachAll ids left = .ok removals after)
    (done' : Form.detachAll ids right = .ok removals' after') : after.Alike view after' := by
  induction ids generalizing left right removals removals' with
  | nil =>
    cases done
    cases done'
    exact alike
  | cons id ids ih =>
    have wellFormed' := alike.wellFormed wellFormed
    obtain ⟨place, stands⟩ := removable.exists_standsAt wellFormed
    have shrunk := wellFormed.wellFormed_without stands
    have rest : (left.without id place).Removable ids := removable.without wellFormed
    have alike' : (left.without id place).Alike view (right.without id place) :=
      alike.without wellFormed
    obtain ⟨later, last, further, -⟩ := shrunk.exists_detachAll rest
    obtain ⟨later', last', further', -⟩ :=
      (alike'.wellFormed shrunk).exists_detachAll (alike'.removable rest)
    have whole := detachAll_cons (wellFormed.detach_of_standsAt stands) further
    have whole' := detachAll_cons
      (wellFormed'.detach_of_standsAt (alike.standsAt_iff.mp stands)) further'
    cases done.symm.trans whole
    cases done'.symm.trans whole'
    exact ih alike' shrunk rest further further'

/-! ## Deleting -/

theorem checkRemovable_eq_ok_iff :
    form.checkRemovable id = .ok () ↔ id ≠ form.root ∧ form.contains id := by
  unfold checkRemovable
  by_cases top : id = form.root <;> by_cases stored : form.contains id <;> simp [top, stored]

theorem eraseDups_of_nodup (distinct : ids.Nodup) : ids.eraseDups = ids := by
  induction ids with
  | nil => rfl
  | cons id ids ih =>
    obtain ⟨fresh, distinct⟩ := List.nodup_cons.mp distinct
    have kept : ids.filter (fun other => !other == id) = ids := by
      refine List.filter_eq_self.mpr ?_
      intro other listed
      have different : other ≠ id := fun same => fresh (same ▸ listed)
      simpa using different
    rw [List.eraseDups_cons, kept, ih distinct]

theorem nodup_eraseDups : ids.eraseDups.Nodup := by
  induction count : ids.length using Nat.strongRecOn generalizing ids with
  | ind count ih =>
    cases ids with
    | nil => exact List.nodup_nil
    | cons id ids =>
      have shorter := List.length_filter_le (fun other => !other == id) ids
      rw [List.length_cons] at count
      rw [List.eraseDups_cons, List.nodup_cons]
      refine ⟨fun again => ?_, ih _ (by omega) rfl⟩
      have kept := (List.mem_filter.mp (List.mem_eraseDups.mp again)).2
      simp at kept

/-- Of fields that lie apart, all are topmost. -/
theorem Removable.topmost_eq (removable : form.Removable ids) (wellFormed : form.WellFormed) :
    form.topmost ids = ids := by
  unfold topmost
  rw [eraseDups_of_nodup removable.nodup]
  refine List.filter_eq_self.mpr ?_
  intro id listed
  rw [Bool.not_eq_true', List.any_eq_false]
  intro top above again
  have beneath := wellFormed.mem_ancestors.mp above
  exact removable.not_under (List.contains_iff_mem.mp again) listed
    (Ne.symm (wellFormed.ne_of_beneath beneath)) beneath.under

/-- The topmost of several fields are those that none of them lies above. -/
theorem WellFormed.mem_topmost (wellFormed : form.WellFormed) :
    id ∈ form.topmost ids ↔ id ∈ ids ∧ ∀ top ∈ ids, ¬ form.Beneath top id := by
  unfold topmost
  rw [List.mem_filter, List.mem_eraseDups, Bool.not_eq_true', List.any_eq_false]
  refine and_congr_right fun _ => ?_
  constructor
  · exact fun free top listed beneath =>
      free top (wellFormed.mem_ancestors.mpr beneath) (List.contains_iff_mem.mpr listed)
  · exact fun free top above listed =>
      free top (List.contains_iff_mem.mp listed) (wellFormed.mem_ancestors.mp above)

/-- The topmost of several fields lie apart. -/
theorem WellFormed.removable_topmost (wellFormed : form.WellFormed)
    (allowed : ∀ id ∈ ids, id ≠ form.root ∧ form.contains id) :
    form.Removable (form.topmost ids) := by
  have apart : ∀ {id other}, id ∈ form.topmost ids → other ∈ form.topmost ids → id ≠ other →
      ¬ form.Under id other := by
    intro id other listed otherListed different under
    rcases under.eq_or_beneath with same | beneath
    · exact different same.symm
    · exact (wellFormed.mem_topmost.mp otherListed).2 id
        (wellFormed.mem_topmost.mp listed).1 beneath
  refine ⟨fun listed => (allowed _ (wellFormed.mem_topmost.mp listed).1).2,
    fun listed => (allowed _ (wellFormed.mem_topmost.mp listed).1).1, ?_⟩
  refine (nodup_eraseDups.filter _).imp_of_mem ?_
  intro id other listed otherListed different
  exact ⟨apart listed otherListed different, apart otherListed listed (Ne.symm different)⟩

theorem deleteFields_eq (allowed : ∀ id ∈ ids, id ≠ form.root ∧ form.contains id) :
    deleteFields ids form = detachAll (form.topmost ids) form := by
  have checked : ids.forM form.checkRemovable = .ok () :=
    Question.forM_eq_ok_iff.mpr fun id listed => checkRemovable_eq_ok_iff.mpr (allowed id listed)
  unfold deleteFields
  rw [Step.bind_of_ok (Edit.ask_of_ok checked)]
  rfl

/-- Fields that lie apart are deleted one after the other. -/
theorem Removable.deleteFields_eq (removable : form.Removable ids)
    (wellFormed : form.WellFormed) : deleteFields ids form = detachAll ids form := by
  rw [Form.deleteFields_eq fun id listed => ⟨removable.inner listed, removable.stored listed⟩,
    removable.topmost_eq wellFormed]

/-! ## New siblings -/

/-- Two branches may be attached side by side in either order. -/
theorem attached_attached {index : Nat} {first second : Branch}
    (room : index ≤ (form.children parent).length)
    (outFirst : ¬ first.toForm.contains parent) (outSecond : ¬ second.toForm.contains parent)
    (apart : ∀ {id : NodeId}, first.toForm.contains id → ¬ second.toForm.contains id) :
    (form.attached parent index first).attached parent (index + 1) second =
      (form.attached parent index second).attached parent index first := by
  refine ext_get? rfl ?_
  intro key
  by_cases inFirst : first.toForm.contains key
  · have elsewhere : key ≠ parent := fun same => outFirst (same ▸ inFirst)
    obtain ⟨field, stored⟩ := contains_iff.mp inFirst
    rw [get?_attached_of_not_branch (apart inFirst), if_neg elsewhere, get?_attached,
      get?_attached, if_neg elsewhere, if_neg elsewhere, stored]
    rfl
  · by_cases inSecond : second.toForm.contains key
    · have elsewhere : key ≠ parent := fun same => outSecond (same ▸ inSecond)
      obtain ⟨field, stored⟩ := contains_iff.mp inSecond
      rw [get?_attached_of_not_branch inFirst, if_neg elsewhere, get?_attached,
        get?_attached, get?_attached, if_neg elsewhere, if_neg elsewhere, if_neg elsewhere, stored]
      rfl
    · rw [get?_attached_of_not_branch inFirst, get?_attached_of_not_branch inSecond,
        get?_attached_of_not_branch inFirst, get?_attached_of_not_branch inSecond]
      split
      · rename_i here
        subst here
        cases stored : form.get? key with
        | none => rfl
        | some field =>
          rw [children_of_get? stored] at room
          simp only [Option.map_some]
          rw [List.insertIdx_comm first.root second.root (Nat.le_refl index) room]
      · rfl

/-- Branches to be put back at one and the same place. -/
def removalsAt (place : Position) (branches : List Branch) : List Removal :=
  branches.map (Removal.mk place)

/-- A branch that is put back to the left of others may just as well be put back first; the others
then go one place further to the right. -/
theorem Restorable.shift {branches : List Branch}
    (restorable : form.Restorable (removalsAt place (branch :: branches))) :
    form.Attachable place branch ∧
      (form.attached place.parent place.index branch).Restorable
        (removalsAt ⟨place.parent, place.index + 1⟩ branches) ∧
      (form.attached place.parent place.index branch).restored
          (removalsAt ⟨place.parent, place.index + 1⟩ branches) =
        form.restored (removalsAt place (branch :: branches)) := by
  induction branches with
  | nil =>
    obtain ⟨-, -, able, -⟩ := restorable
    exact ⟨able, trivial, rfl⟩
  | cons next branches ih =>
    obtain ⟨⟨rest, nextWhole, nextAble, nextApart⟩, whole, able, apart⟩ := restorable
    have outside := able.not_contains_parent
    have disjoint : ∀ {id}, branch.toForm.contains id → ¬ next.toForm.contains id :=
      fun inside again => able.apart inside (nextAble.contains_attached.mpr (.inl again))
    -- without the next branch, the first one would be put back at the same place
    have direct : form.Restorable (removalsAt place (branch :: branches)) := by
      refine ⟨rest, whole, ⟨nextAble.parent_stored, nextAble.index_le, fun inside stored => ?_⟩,
        fun later listed => apart later (List.mem_cons_of_mem _ listed)⟩
      exact able.apart inside (nextAble.contains_attached.mpr (.inr stored))
    obtain ⟨here, shifted, same⟩ := ih direct
    have directAble := direct.2.2.1
    have nextOutside := nextAble.not_contains_parent
    have nextAfter : (form.restored (removalsAt place (branch :: branches))).Attachable
        ⟨place.parent, place.index + 1⟩ next := by
      refine ⟨directAble.contains_attached.mpr (.inr nextAble.parent_stored), ?_, ?_⟩
      · show place.index + 1 ≤ List.length ((Form.attached _ _ _ _).children place.parent)
        rw [directAble.children_parent, List.length_insertIdx_of_le_length directAble.index_le]
        exact Nat.succ_le_succ directAble.index_le
      · intro id inside stored
        rcases directAble.contains_attached.mp stored with again | stored
        · exact disjoint again inside
        · exact nextAble.apart inside stored
    rw [← same] at nextAfter
    refine ⟨here, ⟨shifted, nextWhole, nextAfter, fun later listed => ?_⟩, ?_⟩
    · obtain ⟨branch', member, rfl⟩ := List.mem_map.mp listed
      exact nextApart ⟨place, branch'⟩ (List.mem_map_of_mem member)
    · show Form.attached (Form.restored _ (removalsAt ⟨place.parent, place.index + 1⟩ branches))
        place.parent (place.index + 1) next = _
      rw [same]
      exact attached_attached directAble.index_le outside nextOutside disjoint

/-- Attaching new siblings from left to right puts them all back at one place. -/
theorem attachAll_of_restorable {branches : List Branch}
    (restorable : form.Restorable (removalsAt place branches)) :
    attachAll place.parent place.index branches form =
      .ok () (form.restored (removalsAt place branches)) := by
  induction branches generalizing form place with
  | nil => rfl
  | cons branch branches ih =>
    obtain ⟨able, shifted, same⟩ := restorable.shift
    have unfolded : attachAll place.parent place.index (branch :: branches) =
        (attach place.parent place.index branch >>= fun _ =>
          attachAll place.parent (place.index + 1) branches) := rfl
    rw [unfolded, Step.bind_of_ok (attach_of_attachable able)]
    exact (ih shifted).trans (by rw [same])

theorem insertIdx_length_append (id : NodeId) (front back : List NodeId) :
    (front ++ back).insertIdx front.length id = front ++ id :: back := by
  induction front with
  | nil => rfl
  | cons first front ih => exact congrArg (first :: ·) ih

theorem eraseIdx_length_append (front back : List NodeId) :
    (front ++ id :: back).eraseIdx front.length = front ++ back := by
  induction front with
  | nil => rfl
  | cons first front ih => exact congrArg (first :: ·) ih

theorem Restorable.children_restored {branches : List Branch}
    (restorable : form.Restorable (removalsAt place branches))
    (room : place.index ≤ (form.children place.parent).length) :
    (form.restored (removalsAt place branches)).children place.parent =
      (form.children place.parent).take place.index ++ branches.map Branch.root ++
        (form.children place.parent).drop place.index := by
  induction branches with
  | nil =>
    rw [List.map_nil, List.append_nil, List.take_append_drop]
    rfl
  | cons branch branches ih =>
    obtain ⟨rest, -, able, -⟩ := restorable
    have grown : (form.restored (removalsAt place (branch :: branches))).children place.parent =
        ((form.restored (removalsAt place branches)).children place.parent).insertIdx
          place.index branch.root := able.children_parent
    have front : ((form.children place.parent).take place.index).length = place.index := by
      rw [List.length_take, Nat.min_eq_left room]
    have step := insertIdx_length_append branch.root
      ((form.children place.parent).take place.index)
      (branches.map Branch.root ++ (form.children place.parent).drop place.index)
    rw [front] at step
    rw [grown, ih rest, List.append_assoc, step, List.append_assoc]
    rfl

/-- Branches that are put back at one place are a block there. -/
theorem Restorable.block_restored {branches : List Branch}
    (restorable : form.Restorable (removalsAt place branches))
    (room : place.index ≤ (form.children place.parent).length) :
    (form.restored (removalsAt place branches)).Block place.parent place.index
      (branches.map Branch.root) :=
  ⟨_, _, restorable.children_restored room, by rw [List.length_take, Nat.min_eq_left room]⟩

/-- Whole branches without a field in common, and none with the form, may be put back at a place
that is there. -/
theorem restorable_of_apart {branches : List Branch} (stored : form.contains place.parent)
    (room : place.index ≤ (form.children place.parent).length)
    (whole : ∀ branch ∈ branches, branch.Whole)
    (outside : ∀ branch ∈ branches, ∀ id : NodeId,
      branch.toForm.contains id → ¬ form.contains id)
    (apart : branches.Pairwise fun branch later => ∀ id : NodeId,
      branch.toForm.contains id → ¬ later.toForm.contains id) :
    form.Restorable (removalsAt place branches) := by
  induction branches with
  | nil => trivial
  | cons branch branches ih =>
    obtain ⟨here, others⟩ := List.forall_mem_cons.mp whole
    obtain ⟨free, othersFree⟩ := List.forall_mem_cons.mp outside
    obtain ⟨first, rest⟩ := List.pairwise_cons.mp apart
    have later := ih others othersFree rest
    refine ⟨later, here, ⟨later.contains_restored.mpr (.inl stored), ?_, ?_⟩, ?_⟩
    · show place.index ≤ ((form.restored (removalsAt place branches)).children place.parent).length
      rw [later.children_restored room]
      simp only [List.length_append, List.length_take]
      omega
    · intro id inside again
      rcases later.contains_restored.mp again with before | ⟨removal, listed, after⟩
      · exact free id inside before
      · obtain ⟨other, member, rfl⟩ := List.mem_map.mp listed
        exact first other member id inside after
    · intro removal listed inside
      obtain ⟨other, member, rfl⟩ := List.mem_map.mp listed
      exact othersFree other member place.parent inside stored

/-- The siblings of a block are all taken out at one place. -/
theorem Block.removals_eq (block : form.Block parent start ids) (wellFormed : form.WellFormed)
    {after : Form} (done : detachAll ids form = .ok removals after) :
    removals = removalsAt ⟨parent, start⟩ (removals.map Removal.branch) := by
  induction ids generalizing form removals with
  | nil =>
    cases done
    rfl
  | cons id ids ih =>
    have stands := block.standsAt_head
    have removable := block.removable wellFormed
    have shrunk := wellFormed.wellFormed_without stands
    have shorter : (form.without id ⟨parent, start⟩).Block parent start ids := by
      obtain ⟨front, back, children, rfl⟩ := block
      refine ⟨front, back, ?_, rfl⟩
      rw [wellFormed.children_without (wellFormed.not_under_parent stands), if_pos rfl, children,
        List.append_assoc, List.cons_append, eraseIdx_length_append, List.append_assoc]
    have rest : (form.without id ⟨parent, start⟩).Removable ids := removable.without wellFormed
    obtain ⟨later, last, further, -⟩ := shrunk.exists_detachAll rest
    cases done.symm.trans (detachAll_cons (wellFormed.detach_of_standsAt stands) further)
    have same := ih shorter shrunk further
    rw [List.map_cons, removalsAt, List.map_cons]
    exact congrArg _ same

end FormEditor.Form
