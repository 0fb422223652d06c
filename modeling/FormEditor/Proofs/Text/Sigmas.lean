import FormEditor.Text.Lowercase
import Mathlib.Data.List.Count

/-!
# Words within texts

A capital sigma is lowered in one way at the end of a word and in another way elsewhere, and where a
word ends depends on what stands around it.  So a part of a text may be lowered in one way within
the text (`lowerWithin`) and in another by itself.

The two agree if each capital sigma ends a word in both readings or in neither (`ReadsAlike`).  What
surrounds the part makes a difference only to a sigma that may be the first or the last letter of it
(`Spot.isExposed`).

Main statement: a word is found wherever it is written exactly if none of its capital sigmas is
exposed (`found_iff_not_exposed`).
-/

set_option autoImplicit false

namespace FormEditor.Text

variable {before after word left right front back : List Char} {char : Char}

/-- The small sigma within a word. -/
def innerSigma : Char := Char.ofNat 0x3C3

/-! ## The sigmas of a word -/

/-- A place in a text: what comes before it, in reverse order, and what comes after it. -/
structure Spot where
  before : List Char
  after : List Char
deriving DecidableEq

namespace Spot

/-- Whether a sigma at this place ends a word. -/
def endsWord (spot : Spot) : Bool := meetsCased spot.before && !meetsCased spot.after

/-- The same place when the text stands within a longer one; what comes before the text is in
reverse order. -/
def within (spot : Spot) (before after : List Char) : Spot :=
  ⟨spot.before ++ before, spot.after ++ after⟩

/-- Whether a sigma at this place may end a word or not, depending on what surrounds the text.
Either nothing before it keeps it from being the first letter of a word and nothing after it from
being the last, or it ends a word as long as no letter follows the text. -/
def isExposed (spot : Spot) : Bool :=
  spot.before.all isIgnorable && !meetsCased spot.after ||
    spot.after.all isIgnorable && meetsCased spot.before

theorem within_nil (spot : Spot) : spot.within [] [] = spot := by
  simp only [within, List.append_nil]

end Spot

/-- The places of the capital sigmas of a text, given the characters before it in reverse order. -/
def sigmasFrom (before : List Char) : List Char → List Spot
  | [] => []
  | char :: after =>
    if char = capitalSigma then ⟨before, after⟩ :: sigmasFrom (char :: before) after
    else sigmasFrom (char :: before) after

/-- The places of the capital sigmas of a text. -/
def sigmas (word : List Char) : List Spot := sigmasFrom [] word

/-! ## A part of a text, lowered within the text -/

/-- The lower-case form of a character between what comes before it, in reverse order, and what
comes after it. -/
def lowerAt (before : List Char) (char : Char) (after : List Char) : List Char :=
  if char = capitalSigma && meetsCased before && !meetsCased after then [finalSigma]
  else lowerChar char

/-- The lower-case form of a part of a text between what comes before it, in reverse order, and what
comes after it. -/
def lowerWithin (before after : List Char) : List Char → List Char
  | [] => []
  | char :: rest =>
    lowerAt before char (rest ++ after) ++ lowerWithin (char :: before) after rest

theorem lowerFrom_append :
    lowerFrom before (word ++ after) =
      lowerWithin before after word ++ lowerFrom (word.reverse ++ before) after := by
  induction word generalizing before with
  | nil => rfl
  | cons char word ih =>
    show lowerAt before char (word ++ after) ++ lowerFrom (char :: before) (word ++ after) = _
    rw [ih, ← List.append_assoc, List.reverse_cons, List.append_assoc word.reverse,
      List.singleton_append]
    rfl

theorem lowerChars_eq_lowerWithin : lowerChars word = lowerWithin [] [] word := by
  have whole : lowerFrom [] (word ++ []) = _ := lowerFrom_append
  rwa [List.append_nil, lowerFrom, List.append_nil] at whole

/-- A text is lowered part by part, each part within the text. -/
theorem lowerChars_append :
    lowerChars (front ++ word ++ back) =
      lowerWithin [] (word ++ back) front ++ lowerWithin front.reverse back word ++
        lowerFrom (word.reverse ++ front.reverse) back := by
  unfold lowerChars
  rw [List.append_assoc, lowerFrom_append, lowerFrom_append, List.append_nil, List.append_assoc]

theorem lowerChar_sigma : lowerChar capitalSigma = [innerSigma] := by decide +kernel

theorem lowerAt_of_sigma :
    lowerAt before capitalSigma after =
      [if (Spot.mk before after).endsWord then finalSigma else innerSigma] := by
  unfold lowerAt Spot.endsWord
  rw [lowerChar_sigma, decide_eq_true rfl, Bool.true_and]
  split <;> rfl

theorem lowerAt_of_ne (other : char ≠ capitalSigma) :
    lowerAt before char after = lowerChar char := by
  unfold lowerAt
  rw [decide_eq_false other]
  rfl

theorem lowerWithin_congr_from {before' after' : List Char}
    (alike : ∀ spot ∈ sigmasFrom left word,
      (spot.within before after).endsWord = (spot.within before' after').endsWord) :
    lowerWithin (left ++ before) after word = lowerWithin (left ++ before') after' word := by
  induction word generalizing left with
  | nil => rfl
  | cons char rest ih =>
    unfold sigmasFrom at alike
    unfold lowerWithin
    by_cases sigma : char = capitalSigma
    · rw [if_pos sigma] at alike
      obtain ⟨here, later⟩ := List.forall_mem_cons.mp alike
      have here : (Spot.mk (left ++ before) (rest ++ after)).endsWord =
        (Spot.mk (left ++ before') (rest ++ after')).endsWord := here
      rw [sigma, lowerAt_of_sigma, lowerAt_of_sigma, here]
      exact congrArg _ (sigma ▸ ih later)
    · rw [if_neg sigma] at alike
      rw [lowerAt_of_ne sigma, lowerAt_of_ne sigma]
      exact congrArg _ (ih alike)

/-- A part of a text is lowered alike within two texts if its sigmas end words alike. -/
theorem lowerWithin_congr {before' after' : List Char}
    (alike : ∀ spot ∈ sigmas word,
      (spot.within before after).endsWord = (spot.within before' after').endsWord) :
    lowerWithin before after word = lowerWithin before' after' word :=
  lowerWithin_congr_from alike

/-- How many capital sigmas of a part of a text end a word of the text. -/
def endings (before after word : List Char) : Nat :=
  (sigmas word).countP fun spot => (spot.within before after).endsWord

/-- A part of a text that is lowered within the text has one final sigma more, and one inner sigma
less, for each of its capital sigmas that ends a word. -/
theorem count_lowerWithin_from :
    (lowerWithin (left ++ before) after word).count finalSigma =
      (word.flatMap lowerChar).count finalSigma +
        (sigmasFrom left word).countP (fun spot => (spot.within before after).endsWord) ∧
    (lowerWithin (left ++ before) after word).count innerSigma +
        (sigmasFrom left word).countP (fun spot => (spot.within before after).endsWord) =
      (word.flatMap lowerChar).count innerSigma := by
  induction word generalizing left with
  | nil => exact ⟨rfl, rfl⟩
  | cons char rest ih =>
    obtain ⟨final, inner⟩ := @ih (char :: left)
    rw [List.cons_append] at final inner
    unfold sigmasFrom lowerWithin
    rw [List.flatMap_cons, List.count_append, List.count_append, List.count_append,
      List.count_append]
    by_cases sigma : char = capitalSigma
    · have head : ∀ ends : Bool,
          [if ends then finalSigma else innerSigma].count finalSigma =
            [innerSigma].count finalSigma + (if ends then 1 else 0) ∧
          [if ends then finalSigma else innerSigma].count innerSigma + (if ends then 1 else 0) =
            [innerSigma].count innerSigma := by decide
      have here : ((Spot.mk left rest).within before after).endsWord =
        (Spot.mk (left ++ before) (rest ++ after)).endsWord := rfl
      obtain ⟨final', inner'⟩ := head (Spot.mk (left ++ before) (rest ++ after)).endsWord
      rw [if_pos sigma, sigma, lowerAt_of_sigma, lowerChar_sigma, ← sigma, List.countP_cons, here]
      omega
    · rw [if_neg sigma, lowerAt_of_ne sigma]
      omega

theorem count_finalSigma :
    (lowerWithin before after word).count finalSigma =
      (word.flatMap lowerChar).count finalSigma + endings before after word :=
  (@count_lowerWithin_from before after word []).1

theorem count_innerSigma :
    (lowerWithin before after word).count innerSigma + endings before after word =
      (word.flatMap lowerChar).count innerSigma :=
  (@count_lowerWithin_from before after word []).2

/-! ## What surrounds a word -/

theorem meetsCased_cons {rest : List Char} :
    meetsCased (char :: rest) = if isIgnorable char then meetsCased rest else isCased char := by
  unfold meetsCased
  by_cases passed : isIgnorable char
  · rw [List.dropWhile_cons_of_pos passed, if_pos passed]
  · rw [List.dropWhile_cons_of_neg passed, if_neg passed]

theorem meetsCased_append :
    meetsCased (left ++ right) =
      if left.all isIgnorable then meetsCased right else meetsCased left := by
  induction left with
  | nil => rfl
  | cons char left ih =>
    rw [List.cons_append, meetsCased_cons, meetsCased_cons, List.all_cons, ih]
    by_cases passed : isIgnorable char
    · rw [if_pos passed, if_pos passed, passed, Bool.true_and]
    · rw [if_neg passed, if_neg passed, Bool.eq_false_iff.mpr passed, Bool.false_and,
        if_neg Bool.false_ne_true]

theorem meetsCased_of_all (passed : left.all isIgnorable) : meetsCased left = false := by
  have alone : meetsCased (left ++ []) = _ := meetsCased_append
  rwa [List.append_nil, if_pos passed] at alone

/-- What surrounds a word makes no difference to a sigma that is not exposed. -/
theorem Spot.endsWord_within {spot : Spot} (sheltered : spot.isExposed = false) :
    (spot.within before after).endsWord = spot.endsWord := by
  unfold isExposed at sheltered
  unfold within endsWord
  rw [meetsCased_append, meetsCased_append]
  cases first : spot.before.all isIgnorable with
  | true =>
    -- it may be the first letter of a word, so it must be kept from being the last
    rw [first, meetsCased_of_all first, Bool.and_false, Bool.or_false, Bool.true_and,
      Bool.not_eq_false'] at sheltered
    have letters : spot.after.all isIgnorable = false := by
      rw [Bool.eq_false_iff]
      intro passed
      rw [meetsCased_of_all passed] at sheltered
      cases sheltered
    rw [letters, if_neg Bool.false_ne_true, sheltered, Bool.not_true, Bool.and_false,
      Bool.and_false]
  | false =>
    rw [if_neg Bool.false_ne_true]
    cases last : spot.after.all isIgnorable with
    | true =>
      -- it may be the last letter of a word, so it must be the first
      rw [first, last, Bool.false_and, Bool.false_or, Bool.true_and] at sheltered
      rw [sheltered, Bool.false_and, Bool.false_and]
    | false => rw [if_neg Bool.false_ne_true]

/-! ## Where a word is missed -/

theorem meetsCased_letter : meetsCased ['a'] = true := by decide +kernel

theorem lowerAt_letter : lowerAt before 'a' after = ['a'] := by
  have single : lowerChar 'a' = ['a'] := by decide +kernel
  rw [lowerAt_of_ne (by decide), single]

namespace Spot

variable {spot : Spot}

/-- After a letter, a sigma ends a word if no letter follows it. -/
theorem endsWord_after_letter :
    (spot.within ['a'] []).endsWord =
      ((spot.before.all isIgnorable || meetsCased spot.before) && !meetsCased spot.after) := by
  unfold within endsWord
  rw [meetsCased_append, meetsCased_letter, List.append_nil]
  cases spot.before.all isIgnorable <;> rfl

/-- Before a letter, a sigma ends no word if it stands at the end. -/
theorem endsWord_before_letter :
    (spot.within [] ['a']).endsWord =
      (meetsCased spot.before && !(spot.after.all isIgnorable || meetsCased spot.after)) := by
  unfold within endsWord
  rw [List.append_nil, meetsCased_append, meetsCased_letter]
  cases spot.after.all isIgnorable <;> rfl

end Spot

/-- More sigmas end a word in one place than in another if all that do so there do so here, and one
besides. -/
theorem endings_lt {before' after' : List Char}
    (more : ∀ spot ∈ sigmas word,
      (spot.within before after).endsWord → (spot.within before' after').endsWord)
    {spot : Spot} (listed : spot ∈ sigmas word)
    (differs : (spot.within before after).endsWord = false)
    (ends : (spot.within before' after').endsWord) :
    endings before after word < endings before' after' word := by
  unfold endings
  obtain ⟨earlier, later, split⟩ := List.append_of_mem listed
  rw [split, List.forall_mem_append] at more
  have first := List.countP_mono_left more.1
  have last := List.countP_mono_left (List.forall_mem_cons.mp more.2).2
  rw [split, List.countP_append, List.countP_append, List.countP_cons, List.countP_cons,
    if_pos ends, if_neg (Bool.eq_false_iff.mp differs)]
  omega

theorem lowerChars_after_letter :
    lowerChars (['a'] ++ word ++ []) = 'a' :: lowerWithin ['a'] [] word := by
  have letter : lowerWithin [] (word ++ []) ['a'] = ['a'] := by
    rw [lowerWithin, lowerAt_letter]
    rfl
  rw [lowerChars_append, letter, lowerFrom, List.append_nil]
  rfl

theorem lowerChars_before_letter :
    lowerChars ([] ++ word ++ ['a']) = lowerWithin [] ['a'] word ++ ['a'] := by
  have letter : lowerFrom (word.reverse ++ [].reverse) ['a'] = ['a'] :=
    (List.append_nil _).trans lowerAt_letter
  rw [lowerChars_append, letter]
  rfl

/-- A word is missed after a letter if one of its sigmas ends a word there, but not by itself. -/
theorem missed_after_letter {spot : Spot} (listed : spot ∈ sigmas word)
    (first : spot.before.all isIgnorable) (last : meetsCased spot.after = false) :
    ¬ lowerChars word <:+: lowerChars (['a'] ++ word ++ []) := by
  have more : endings [] [] word < endings ['a'] [] word := by
    refine endings_lt (fun other _ ends => ?_) listed ?_ ?_
    · rw [Spot.within_nil, Spot.endsWord, Bool.and_eq_true] at ends
      rw [Spot.endsWord_after_letter, ends.1, ends.2, Bool.or_true, Bool.true_and]
    · rw [Spot.within_nil, Spot.endsWord, meetsCased_of_all first, Bool.false_and]
    · rw [Spot.endsWord_after_letter, first, last]
      rfl
  intro found
  have counts := found.sublist.count_le innerSigma
  have alone := @count_innerSigma [] [] word
  have inside := @count_innerSigma ['a'] [] word
  rw [lowerChars_after_letter, lowerChars_eq_lowerWithin,
    List.count_cons_of_ne (by decide)] at counts
  omega

/-- A word is missed before a letter if one of its sigmas ends a word by itself, but not there. -/
theorem missed_before_letter {spot : Spot} (listed : spot ∈ sigmas word)
    (last : spot.after.all isIgnorable) (first : meetsCased spot.before) :
    ¬ lowerChars word <:+: lowerChars ([] ++ word ++ ['a']) := by
  have fewer : endings [] ['a'] word < endings [] [] word := by
    refine endings_lt (fun other _ ends => ?_) listed ?_ ?_
    · rw [Spot.endsWord_before_letter, Bool.and_eq_true, Bool.not_eq_true', Bool.or_eq_false_iff]
        at ends
      rw [Spot.within_nil, Spot.endsWord, ends.1, ends.2.2]
      rfl
    · rw [Spot.endsWord_before_letter, last, Bool.true_or, Bool.not_true, Bool.and_false]
    · rw [Spot.within_nil, Spot.endsWord, first, meetsCased_of_all last]
      rfl
  intro found
  have counts := found.sublist.count_le finalSigma
  have alone := @count_finalSigma [] [] word
  have inside := @count_finalSigma [] ['a'] word
  rw [lowerChars_before_letter, lowerChars_eq_lowerWithin, List.count_append,
    List.count_cons_of_ne (by decide), List.count_nil] at counts
  omega

/-! ## Where a word is found -/

/-- Each capital sigma of a word ends a word between what stands around `word` in a text exactly if
it does so when `word` stands by itself. -/
def ReadsAlike (front word back : List Char) : Prop :=
  ∀ spot ∈ sigmas word, (spot.within front.reverse back).endsWord = spot.endsWord

/-- A word is found where it reads as it does by itself. -/
theorem found_of_readsAlike (alike : ReadsAlike front word back) :
    lowerChars word <:+: lowerChars (front ++ word ++ back) := by
  have same : lowerWithin front.reverse back word = lowerChars word := by
    rw [lowerChars_eq_lowerWithin]
    refine lowerWithin_congr fun spot listed => ?_
    rw [alike spot listed, Spot.within_nil]
  rw [lowerChars_append, same]
  exact ⟨_, _, rfl⟩

/-- **A word is found wherever it is written exactly if none of its capital sigmas is exposed.** -/
theorem found_iff_not_exposed :
    (∀ front back, lowerChars word <:+: lowerChars (front ++ word ++ back)) ↔
      ∀ spot ∈ sigmas word, spot.isExposed = false := by
  constructor
  · intro found spot listed
    rw [Bool.eq_false_iff]
    intro exposed
    rw [Spot.isExposed, Bool.or_eq_true, Bool.and_eq_true, Bool.and_eq_true,
      Bool.not_eq_true'] at exposed
    rcases exposed with ⟨first, last⟩ | ⟨last, first⟩
    · exact missed_after_letter listed first last (found _ _)
    · exact missed_before_letter listed last first (found _ _)
  · intro sheltered front back
    exact found_of_readsAlike fun spot listed => Spot.endsWord_within (sheltered spot listed)

end FormEditor.Text
