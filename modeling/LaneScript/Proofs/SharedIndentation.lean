import LaneScript.Literal.Heredoc

/-!
# The indentation that lines share

`dedent` takes the same number of characters from every line, the least indentation of a line with
text (`sharedIndent_eq_iff`).  A line with text has at least so much indentation, so that it loses
nothing else (`isIndent_of_mem_take`) and is not blank afterwards; a blank line loses what it has.

Two facts follow about the number for other lines.  An indentation before every line adds its length
(`sharedIndent_map_append`), and is taken away again.  Of the dedented lines one with text has no
indentation left (`exists_unindented`), so that they share none (`sharedIndent_dedent`).
-/

namespace LaneScript.Literal

open Text (isBlank)
open List

variable {lines : List (List Char)} {line indent : List Char}

/-- Some line has text. -/
def HasText (lines : List (List Char)) : Prop := ∃ line ∈ lines, isBlankLine line = false

theorem isIndent_iff {c : Char} : isIndent c = true ↔ c = ' ' ∨ c = '\t' := by
  simp [isIndent]

theorem isBlank_of_isIndent {c : Char} (h : isIndent c = true) : isBlank c = true := by
  rcases isIndent_iff.1 h with rfl | rfl <;> decide

/-- Indentation before a line leaves it blank or not, as it is. -/
theorem isBlankLine_append (h : ∀ c ∈ indent, isIndent c = true)
    (line : List Char) : isBlankLine (indent ++ line) = isBlankLine line := by
  have hindent : indent.all isBlank = true :=
    all_eq_true.2 fun c hc => isBlank_of_isIndent (h c hc)
  rw [isBlankLine, all_append, hindent, Bool.true_and, isBlankLine]

/-! ### The shared indentation -/

theorem sharedIndent_of_not_hasText (h : ¬ HasText lines) : sharedIndent lines = 0 := by
  have hnone : lines.filter (!isBlankLine ·) = [] := by
    rw [filter_eq_nil_iff]
    intro line hline hblank
    exact h ⟨line, hline, by simpa using hblank⟩
  rw [sharedIndent, hnone]
  rfl

/-- The shared indentation is that of some line with text, and no such line has less. -/
theorem sharedIndent_eq_iff (h : HasText lines) {n : Nat} :
    sharedIndent lines = n ↔
      (∃ line ∈ lines, isBlankLine line = false ∧ (line.takeWhile isIndent).length = n) ∧
        ∀ line ∈ lines, isBlankLine line = false → n ≤ (line.takeWhile isIndent).length := by
  rw [sharedIndent]
  generalize hleast : min? (α := Nat) _ = least
  cases least with
  | none =>
    -- the line with text is among those whose indentations are compared
    rw [min?_eq_none_iff, map_eq_nil_iff, filter_eq_nil_iff] at hleast
    obtain ⟨line, hline, htext⟩ := h
    exact absurd (by rw [htext]; rfl) (hleast line hline)
  | some m =>
    rw [min?_eq_some_iff] at hleast
    simp only [mem_map, mem_filter, Bool.not_eq_true', and_assoc, forall_exists_index,
      and_imp] at hleast
    obtain ⟨⟨first, hfirst, htext, hm⟩, hall⟩ := hleast
    constructor
    · rintro rfl
      exact ⟨⟨first, hfirst, htext, hm⟩,
        fun line hline hnotBlank => hall _ line hline hnotBlank rfl⟩
    · rintro ⟨⟨line, hline, hnotBlank, rfl⟩, hleast⟩
      exact Nat.le_antisymm (hall _ line hline hnotBlank rfl) (hm ▸ hleast first hfirst htext)

/-- Of a line with text only indentation is taken. -/
theorem isIndent_of_mem_take (hline : line ∈ lines) (htext : isBlankLine line = false) :
    sharedIndent lines ≤ line.length ∧
      ∀ c ∈ line.take (sharedIndent lines), isIndent c = true := by
  obtain ⟨-, hle⟩ := (sharedIndent_eq_iff ⟨line, hline, htext⟩).1 rfl
  have hindent := hle line hline htext
  have htake : line.take (sharedIndent lines) =
      (line.takeWhile isIndent).take (sharedIndent lines) := by
    rw [prefix_iff_eq_take.1 (List.takeWhile_prefix isIndent), take_take,
      Nat.min_eq_left hindent]
  refine ⟨Nat.le_trans hindent (List.takeWhile_prefix _).length_le, fun c hc => ?_⟩
  rw [htake] at hc
  exact all_eq_true.1 all_takeWhile c (mem_of_mem_take hc)

/-! ### Indented and dedented lines -/

theorem sharedIndent_map_append (htext : HasText lines) (h : ∀ c ∈ indent, isIndent c = true) :
    sharedIndent (lines.map (indent ++ ·)) = indent.length + sharedIndent lines := by
  obtain ⟨⟨first, hfirst, hnotBlank, hlength⟩, hle⟩ := (sharedIndent_eq_iff htext).1 rfl
  have hlengths : ∀ line : List Char, ((indent ++ line).takeWhile isIndent).length =
      indent.length + (line.takeWhile isIndent).length := by
    intro line
    rw [takeWhile_append_of_pos h, length_append]
  have hmem : indent ++ first ∈ lines.map (indent ++ ·) := mem_map_of_mem hfirst
  have hblank : isBlankLine (indent ++ first) = false := by
    rw [isBlankLine_append h, hnotBlank]
  refine (sharedIndent_eq_iff ⟨_, hmem, hblank⟩).2 ⟨⟨_, hmem, hblank, ?_⟩, ?_⟩
  · rw [hlengths, hlength]
  · rintro _ hindented hnotBlank
    obtain ⟨line, hline, rfl⟩ := mem_map.1 hindented
    rw [isBlankLine_append h] at hnotBlank
    rw [hlengths]
    exact Nat.add_le_add_left (hle line hline hnotBlank) _

/-- A line with the least indentation has none left, and its text is still there. -/
theorem exists_unindented (htext : HasText lines) :
    ∃ line ∈ dedent lines, isBlankLine line = false ∧ line.takeWhile isIndent = [] := by
  obtain ⟨⟨line, hline, hnotBlank, hlength⟩, -⟩ := (sharedIndent_eq_iff htext).1 rfl
  obtain ⟨hle, hindent⟩ := isIndent_of_mem_take hline hnotBlank
  refine ⟨line.drop (sharedIndent lines), mem_map_of_mem hline, ?_, ?_⟩
  · rwa [← isBlankLine_append hindent, take_append_drop]
  · -- the line's indentation is what was taken and what is left of it
    have hsplit : line.takeWhile isIndent = line.take (sharedIndent lines) ++
        (line.drop (sharedIndent lines)).takeWhile isIndent := by
      rw [← takeWhile_append_of_pos hindent, take_append_drop]
    rw [hsplit, length_append, length_take, Nat.min_eq_left hle] at hlength
    exact length_eq_zero_iff.1 (Nat.add_eq_left.1 hlength)

theorem sharedIndent_dedent (lines : List (List Char)) : sharedIndent (dedent lines) = 0 := by
  by_cases htext : HasText (dedent lines)
  · have hlines : HasText lines := by
      obtain ⟨_, hdedented, hnotBlank⟩ := htext
      obtain ⟨line, hline, rfl⟩ := mem_map.1 hdedented
      refine ⟨line, hline, ?_⟩
      -- what is left of a blank line is blank
      rw [isBlankLine, all_eq_false] at hnotBlank ⊢
      obtain ⟨c, hc, hblank⟩ := hnotBlank
      exact ⟨c, mem_of_mem_drop hc, hblank⟩
    obtain ⟨line, hline, hnotBlank, hnone⟩ := exists_unindented hlines
    refine (sharedIndent_eq_iff htext).2 ⟨⟨line, hline, hnotBlank, ?_⟩, fun _ _ _ => Nat.zero_le _⟩
    rw [hnone, length_nil]
  · exact sharedIndent_of_not_hasText htext

/-- **Dedented lines do not depend on how far all lines are indented.**  Lines with text lose only
blanks and tabs, each the same number, and one of them starts with neither afterwards.  To dedent
again changes nothing. -/
theorem dedent_independent_of_indent (lines : List (List Char)) :
    (∀ indent : List Char, HasText lines → (∀ c ∈ indent, c = ' ' ∨ c = '\t') →
        dedent (lines.map (indent ++ ·)) = dedent lines) ∧
      (∃ n, dedent lines = lines.map (·.drop n) ∧
        ∀ line ∈ lines, isBlankLine line = false →
          n ≤ line.length ∧ ∀ c ∈ line.take n, c = ' ' ∨ c = '\t') ∧
      (HasText lines → ∃ line ∈ dedent lines,
        isBlankLine line = false ∧ line.head? ≠ some ' ' ∧ line.head? ≠ some '\t') ∧
      dedent (dedent lines) = dedent lines := by
  refine ⟨fun indent htext hindent => ?_, ⟨sharedIndent lines, rfl, ?_⟩, fun htext => ?_, ?_⟩
  · have hshared := sharedIndent_map_append htext fun c hc => isIndent_iff.2 (hindent c hc)
    rw [dedent, hshared, map_map]
    refine map_congr_left fun line _ => ?_
    rw [Function.comp_apply, ← drop_drop, drop_left]
  · intro line hline hnotBlank
    obtain ⟨hle, hindent⟩ := isIndent_of_mem_take hline hnotBlank
    exact ⟨hle, fun c hc => isIndent_iff.1 (hindent c hc)⟩
  · obtain ⟨line, hline, hnotBlank, hnone⟩ := exists_unindented htext
    refine ⟨line, hline, hnotBlank, ?_⟩
    cases line with
    | nil => simp
    | cons c rest =>
      have hc : isIndent c ≠ true := by
        simpa [takeWhile_cons] using hnone
      rw [ne_eq, isIndent_iff, not_or] at hc
      simpa using hc
  -- the dedented lines share no indentation any more
  · rw [dedent, sharedIndent_dedent, map_congr_left fun line _ => drop_zero, map_id']

/-- Lines indented by tabs and blanks, with an empty line and a longer blank one between them. -/
def mixedLines : List (List Char) := ["\t x".toList, [], " \x0b ".toList, "\t\t\ty".toList]

theorem dedent_independent_of_indent_mixedLines :
    HasText mixedLines ∧
      dedent (mixedLines.map ([' ', '\t'] ++ ·)) =
        ["x".toList, [], " ".toList, "\ty".toList] ∧
      ∃ line ∈ dedent mixedLines,
        isBlankLine line = false ∧ line.head? ≠ some ' ' ∧ line.head? ≠ some '\t' := by
  have htext : HasText mixedLines := ⟨_, mem_cons_self, by decide⟩
  obtain ⟨hindented, -, hunindented, -⟩ := dedent_independent_of_indent mixedLines
  refine ⟨htext, ?_, hunindented htext⟩
  rw [hindented [' ', '\t'] htext (by simp)]
  decide

end LaneScript.Literal
