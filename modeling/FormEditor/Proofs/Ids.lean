import FormEditor.NodeId
import Mathlib

/-!
# Written ids

An id that has 32 hexadecimal digits is read back from its written form (`NodeId.ofText?_text`).
The digits stand for the number (`Hex.ofDigits?_digits`), and hyphens between groups are found
again where they were put (`NodeId.unhyphenate?_hyphenate`).
-/

set_option autoImplicit false

namespace FormEditor

/-! ## Digits -/

namespace Hex

theorem value?_digitChar {digit : Nat} (small : digit < 16) :
    value? (Nat.digitChar digit) = some digit := by
  have all : ∀ digit : Fin 16, value? (Nat.digitChar digit) = some digit.val := by decide
  exact all ⟨digit, small⟩

@[simp] theorem length_digits {count number : Nat} : (digits count number).length = count := by
  induction count generalizing number with
  | zero => rfl
  | succ count ih => rw [digits, List.length_append, ih, List.length_singleton]

/-- Digits stand for the number that they were taken from, if they are enough. -/
theorem ofDigits?_digits {count number : Nat} (small : number < 16 ^ count) :
    ofDigits? (digits count number) = some number := by
  induction count generalizing number with
  | zero =>
    obtain rfl : number = 0 := by simpa using small
    rfl
  | succ count ih =>
    have high : number / 16 < 16 ^ count := by
      rw [Nat.pow_succ'] at small
      exact Nat.div_lt_of_lt_mul small
    have low : number % 16 < 16 := Nat.mod_lt number (by decide)
    have upper := ih high
    unfold ofDigits? at upper ⊢
    rw [digits, List.foldlM_append, upper]
    simp only [Option.bind_eq_bind, Option.bind_some, List.foldlM_cons, List.foldlM_nil,
      value?_digitChar low, Option.map_some, Option.pure_def]
    rw [Nat.div_add_mod']

end Hex

/-! ## Hyphens -/

namespace NodeId

theorem length_hyphenate {sizes : List Nat} {digits : List Char} (filled : sizes ≠ [])
    (whole : digits.length = sizes.sum) :
    (hyphenate sizes digits).length = sizes.sum + (sizes.length - 1) := by
  fun_induction hyphenate sizes digits with
  | case1 => exact absurd rfl filled
  | case2 size digits => simp_all
  | case3 size sizes digits more ih =>
    rw [List.sum_cons] at whole
    have rest : (digits.drop size).length = sizes.sum := by
      rw [List.length_drop]
      omega
    have filled : sizes ≠ [] := fun empty => more empty
    have pos := List.length_pos_of_ne_nil filled
    rw [List.length_append, List.length_take, List.length_cons, ih filled rest, List.sum_cons,
      List.length_cons]
    omega

/-- Hyphens are taken out again from between groups of the same sizes. -/
theorem unhyphenate?_hyphenate {sizes : List Nat} {digits : List Char} (filled : sizes ≠ [])
    (whole : digits.length = sizes.sum) :
    unhyphenate? sizes (hyphenate sizes digits) = some digits := by
  fun_induction hyphenate sizes digits with
  | case1 => exact absurd rfl filled
  | case2 size digits =>
    have size : digits.length = size := by simpa using whole
    simp [unhyphenate?, ← size]
  | case3 size sizes digits more ih =>
    rw [List.sum_cons] at whole
    have rest : (digits.drop size).length = sizes.sum := by
      rw [List.length_drop]
      omega
    have filled : sizes ≠ [] := fun empty => more empty
    have front : (digits.take size).length = size := by
      rw [List.length_take]
      omega
    obtain ⟨next, others, rfl⟩ := List.exists_cons_of_ne_nil filled
    simp only [unhyphenate?, List.drop_left' front, List.take_left' front, ih filled rest,
      Option.map_some, List.take_append_drop]

/-- **An id of 32 digits is read back from its written form.** -/
theorem ofText?_text {id : NodeId} (small : id.number < 16 ^ 32) : ofText? id.text = some id := by
  have digits := Hex.ofDigits?_digits small
  have whole : (Hex.digits 32 id.number).length = groupSizes.sum := Hex.length_digits
  have filled : groupSizes ≠ [] := List.cons_ne_nil _ _
  have length : (hyphenate groupSizes (Hex.digits 32 id.number)).length = 36 :=
    length_hyphenate filled whole
  unfold ofText? text
  simp only [String.toList_ofList, length, hyphenatedDigits?, if_pos,
    unhyphenate?_hyphenate filled whole]
  simp [digits]

end NodeId

end FormEditor
