import LaneScript.Text.CharClass

/-!
# Cutting text at its blanks

Text is cut on its list of characters: blanks are trimmed from both ends, the characters of a class
from the right end, and a text falls into its words, the maximal runs free of blanks.
-/

namespace LaneScript.Text

/-- Without the characters of the class at its right end. -/
def trimRight (drop : Char → Bool) (text : List Char) : List Char :=
  (text.reverse.dropWhile drop).reverse

/-- Without the blanks at either end. -/
def trim (text : List Char) : List Char := trimRight isBlank (text.dropWhile isBlank)

/-- The words of a text, when `word` holds the characters of the current one, last first. -/
def wordsAfter (word : List Char) : List Char → List (List Char)
  | [] => if word.isEmpty then [] else [word.reverse]
  | c :: rest =>
    if isBlank c then
      if word.isEmpty then wordsAfter [] rest else word.reverse :: wordsAfter [] rest
    else wordsAfter (c :: word) rest

/-- The maximal runs of characters that are not blanks. -/
def words (text : List Char) : List (List Char) := wordsAfter [] text

/-- The words of a text are not empty and hold no blank. -/
theorem wordsAfter_spec (word text : List Char) (h : ∀ c ∈ word, isBlank c = false) :
    ∀ w ∈ wordsAfter word text, w ≠ [] ∧ ∀ c ∈ w, isBlank c = false := by
  induction text generalizing word with
  | nil =>
    intro w hw
    unfold wordsAfter at hw
    cases word with
    | nil => simp at hw
    | cons a as =>
      simp only [List.isEmpty_cons, Bool.false_eq_true, if_false, List.mem_singleton] at hw
      subst hw
      exact ⟨by simp, fun c hc => h c (List.mem_reverse.1 hc)⟩
  | cons c rest ih =>
    intro w hw
    unfold wordsAfter at hw
    by_cases hc : isBlank c = true
    · simp only [hc, if_true] at hw
      cases word with
      | nil => exact ih [] (by simp) w (by simpa using hw)
      | cons a as =>
        simp only [List.isEmpty_cons, Bool.false_eq_true, if_false, List.mem_cons] at hw
        rcases hw with rfl | hw
        · exact ⟨by simp, fun c hc => h c (List.mem_reverse.1 hc)⟩
        · exact ih [] (by simp) w hw
    · simp only [hc, Bool.false_eq_true, if_false] at hw
      exact ih (c :: word) (by
        intro d hd
        rcases List.mem_cons.1 hd with rfl | hd
        · simpa using hc
        · exact h d hd) w hw

/-- The words of a text are not empty and hold no blank. -/
theorem words_spec {text w : List Char} (h : w ∈ words text) :
    w ≠ [] ∧ ∀ c ∈ w, isBlank c = false :=
  wordsAfter_spec [] text (by simp) w h

end LaneScript.Text
