import FormEditor.Form.Basic

/-!
# Computations that may be refused

Questions answer or name a fault (`Except`); edits answer or name a fault and leave a state behind
either way (`EStateM`).  The lemmas here run such computations step by step: what a sequence of
two steps does once it is known what the first one does, and what must have happened if a
sequence succeeded.

An edit keeps a law if the form that it leaves obeys the law whenever the form that it met does
(`Edit.Keeps`).  This includes the form left by a refusal.  There is one lemma for each way in
which edits are put together.
-/

set_option autoImplicit false

namespace FormEditor

/-! ## Questions -/

namespace Question

variable {ε α β : Type}

theorem pure_eq (answer : α) : (pure answer : Except ε α) = .ok answer := rfl

theorem throw_eq (fault : ε) : (throw fault : Except ε α) = .error fault := rfl

theorem ok_bind (answer : α) (next : α → Except ε β) : (Except.ok answer >>= next) = next answer :=
  rfl

theorem error_bind (fault : ε) (next : α → Except ε β) :
    (Except.error fault >>= next) = .error fault := rfl

/-- A sequence of questions has an answer when both questions have. -/
theorem bind_eq_ok_iff {first : Except ε α} {next : α → Except ε β} {answer : β} :
    (first >>= next) = .ok answer ↔ ∃ middle, first = .ok middle ∧ next middle = .ok answer := by
  cases first with
  | error fault => simp [error_bind]
  | ok middle => simp [ok_bind]

/-- A check in front of a question lets it through or refuses it. -/
theorem seq_eq_ok_iff {check : Except ε Unit} {next : Except ε β} {answer : β} :
    (check >>= fun _ => next) = .ok answer ↔ check = .ok () ∧ next = .ok answer := by
  rw [bind_eq_ok_iff]
  exact ⟨fun ⟨_, first, rest⟩ => ⟨first, rest⟩, fun ⟨first, rest⟩ => ⟨(), first, rest⟩⟩

/-- A question with a guard in front of it has an answer when the guard lets it through. -/
theorem guard_eq_ok_iff {barred : Prop} [Decidable barred] {fault : ε} {next : Except ε β}
    {answer : β} :
    (if barred then (throw fault : Except ε Unit) >>= fun _ => next else next) = .ok answer ↔
      ¬ barred ∧ next = .ok answer := by
  by_cases here : barred
  · rw [if_pos here, throw_eq, error_bind]
    exact iff_of_false (fun equal => nomatch equal) fun both => both.1 here
  · rw [if_neg here]
    exact (and_iff_right here).symm

/-- A check of several items passes when it passes for each of them. -/
theorem forM_eq_ok_iff {check : α → Except ε Unit} {items : List α} :
    items.forM check = .ok () ↔ ∀ item ∈ items, check item = .ok () := by
  induction items with
  | nil => exact ⟨fun _ _ listed => absurd listed List.not_mem_nil, fun _ => rfl⟩
  | cons item items ih =>
    have unfolded : (item :: items).forM check = (check item >>= fun _ => items.forM check) := rfl
    rw [unfolded, seq_eq_ok_iff, List.forall_mem_cons, ← ih]

end Question

/-! ## Edits -/

namespace Step

variable {ε σ α β : Type} {first : EStateM ε σ α} {next : α → EStateM ε σ β} {before after : σ}

theorem bind_of_ok {result : α} (done : first before = .ok result after) :
    (first >>= next) before = next result after := by
  show EStateM.bind first next before = _
  rw [EStateM.bind, done]

theorem bind_of_error {fault : ε} (refused : first before = .error fault after) :
    (first >>= next) before = .error fault after := by
  show EStateM.bind first next before = _
  rw [EStateM.bind, refused]

/-- A sequence of two steps succeeds when both steps do. -/
theorem bind_eq_ok_iff {answer : β} :
    (first >>= next) before = .ok answer after ↔
      ∃ middle state, first before = .ok middle state ∧ next middle state = .ok answer after := by
  cases done : first before with
  | error fault state =>
    rw [bind_of_error done]
    constructor
    · intro equal
      cases equal
    · rintro ⟨_, _, equal, -⟩
      cases equal
  | ok middle state =>
    rw [bind_of_ok done]
    constructor
    · exact fun rest => ⟨middle, state, rfl, rest⟩
    · rintro ⟨_, _, equal, rest⟩
      cases equal
      exact rest

theorem map_of_ok {change : α → β} {result : α} (done : first before = .ok result after) :
    (change <$> first) before = .ok (change result) after := by
  show EStateM.map change first before = _
  rw [EStateM.map, done]

theorem map_of_error {change : α → β} {fault : ε} (refused : first before = .error fault after) :
    (change <$> first) before = .error fault after := by
  show EStateM.map change first before = _
  rw [EStateM.map, refused]

theorem discard_of_ok {result : α} (done : first before = .ok result after) :
    (discard first) before = .ok ⟨⟩ after :=
  map_of_ok done

theorem discard_of_error {fault : ε} (refused : first before = .error fault after) :
    (discard first) before = .error fault after :=
  map_of_error refused

/-- A step whose answer is dropped succeeds when the step does. -/
theorem discard_eq_ok_iff {answer : PUnit} :
    (discard first) before = .ok answer after ↔ ∃ result, first before = .ok result after := by
  constructor
  · intro done
    cases performed : first before with
    | error fault state => cases (discard_of_error performed).symm.trans done
    | ok result state =>
      cases (discard_of_ok performed).symm.trans done
      exact ⟨result, rfl⟩
  · rintro ⟨result, done⟩
    exact discard_of_ok done

theorem get_bind {next : σ → EStateM ε σ β} : (get >>= next) before = next before before := rfl

/-- A question in front of a step lets the step run on the state as it is, or refuses it there. -/
theorem ofExcept_bind {question : Except ε α} :
    ((ofExcept question : EStateM ε σ α) >>= next) before =
      match question with
      | .ok answer => next answer before
      | .error fault => .error fault before := by
  cases question <;> rfl

theorem modify_bind {change : σ → σ} {next : PUnit → EStateM ε σ β} :
    ((modify change : EStateM ε σ PUnit) >>= next) before = next ⟨⟩ (change before) := rfl

theorem modify_apply {change : σ → σ} :
    (modify change : EStateM ε σ PUnit) before = .ok ⟨⟩ (change before) := rfl

end Step

namespace Edit

variable {α β : Type} {question : Form → Except Fault α} {form : Form}

theorem ask_of_ok {answer : α} (answered : question form = .ok answer) :
    Edit.ask question form = .ok answer form := by
  simp only [Edit.ask, answered]

theorem ask_of_error {fault : Fault} (refused : question form = .error fault) :
    Edit.ask question form = .error fault form := by
  simp only [Edit.ask, refused]

/-- A question in front of an edit lets the edit run on the form as it is, or refuses it there. -/
theorem ask_bind {next : α → Edit β} :
    (Edit.ask question >>= next) form =
      match question form with
      | .ok answer => next answer form
      | .error fault => .error fault form := by
  cases asked : question form with
  | error fault => exact Step.bind_of_error (ask_of_error asked)
  | ok answer => exact Step.bind_of_ok (ask_of_ok asked)

section Writing

variable {change : α → Form → Form} {after : Form}

/-- An edit that asks a question and then writes is carried out where the question is answered. -/
theorem ask_modify_eq_ok_iff :
    (Edit.ask question >>= fun answer => modify (change answer)) form = .ok ⟨⟩ after ↔
      ∃ answer, question form = .ok answer ∧ after = change answer form := by
  rw [ask_bind]
  cases question form with
  | error fault => simp
  | ok answer => simp [Step.modify_apply, eq_comm]

/-- An edit that asks a question and then writes is refused before it has written anything. -/
theorem eq_of_ask_modify_eq_error {fault : Fault}
    (refused : (Edit.ask question >>= fun answer => modify (change answer)) form =
      .error fault after) : after = form := by
  rw [ask_bind] at refused
  cases asked : question form with
  | error cause =>
    rw [asked] at refused
    cases refused
    rfl
  | ok answer =>
    rw [asked] at refused
    cases refused

end Writing

/-! ## What an edit leaves -/

/-- The form that an edit leaves, whether it is carried out or refused. -/
def leaves (edit : Edit α) (form : Form) : Form :=
  match edit form with
  | .ok _ after => after
  | .error _ after => after

/-- An edit keeps a law: what it leaves of a form that obeys the law obeys it too. -/
def Keeps (law : Form → Prop) (edit : Edit α) : Prop := ∀ form, law form → law (edit.leaves form)

namespace Keeps

variable {law : Form → Prop} {edit : Edit α} {next : α → Edit β}

theorem of_ok {answer : α} {after : Form} (keeps : edit.Keeps law) (holds : law form)
    (done : edit form = .ok answer after) : law after := by
  have kept := keeps form holds
  unfold leaves at kept
  rw [done] at kept
  exact kept

theorem of_error {fault : Fault} {after : Form} (keeps : edit.Keeps law) (holds : law form)
    (refused : edit form = .error fault after) : law after := by
  have kept := keeps form holds
  unfold leaves at kept
  rw [refused] at kept
  exact kept

theorem pure (answer : α) : Keeps law (pure answer : Edit α) := fun _ holds => holds

theorem throw (fault : Fault) : Keeps law (throw fault : Edit α) := fun _ holds => holds

theorem bind (first : edit.Keeps law) (rest : ∀ answer, (next answer).Keeps law) :
    Keeps law (edit >>= next) := by
  intro form holds
  unfold leaves
  cases done : edit form with
  | error fault after =>
    rw [Step.bind_of_error done]
    exact first.of_error holds done
  | ok answer after =>
    rw [Step.bind_of_ok done]
    exact rest answer after (first.of_ok holds done)

theorem ask (question : Form → Except Fault α) : (Edit.ask question).Keeps law := by
  intro form holds
  unfold leaves Edit.ask
  cases question form <;> exact holds

/-- What follows a question may rely on the answer, since it meets the form that gave it. -/
theorem ask_bind (rest : ∀ form answer, law form → question form = .ok answer →
    law ((next answer).leaves form)) : Keeps law (Edit.ask question >>= next) := by
  intro form holds
  unfold leaves
  rw [Edit.ask_bind]
  cases asked : question form with
  | error fault => exact holds
  | ok answer => exact rest form answer holds asked

theorem get : Keeps law (get : Edit Form) := fun _ holds => holds

theorem discard (keeps : edit.Keeps law) : Keeps law (discard edit) := by
  intro form holds
  unfold leaves
  cases done : edit form with
  | error fault after =>
    rw [Step.discard_of_error done]
    exact keeps.of_error holds done
  | ok answer after =>
    rw [Step.discard_of_ok done]
    exact keeps.of_ok holds done

end Keeps

end Edit

end FormEditor
