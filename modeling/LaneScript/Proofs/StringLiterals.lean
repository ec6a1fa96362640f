import LaneScript.Proofs.DisciplinedRules
import Mathlib.Data.Set.List

/-!
# The strings of a script

Strings that stand side by side in a text are read as one literal.  The parts of one string are
joined, and so are those of several (`foldl_appendParts_spec`); what is read of them is a plain
string where they hold no code (`run_strings_of_isText`), and otherwise a string whose segments are
joined as the parts are.  No string of a tree comes from anywhere else.
-/

namespace LaneScript

open Literal

/-- Texts alone are read without a look at the tokens. -/
theorem run_stringForm_of_texts (read : Reader) (texts : List String) (s : State) :
    (Rule.stringForm read (texts.map .text)).run s = .ok (.str (String.join texts), s) := by
  have hsegments : ∀ texts : List String,
      Rule.segments read (texts.map .text) = pure (texts.map .text) := by
    intro texts
    induction texts with
    | nil => rfl
    | cons text texts ih => simp [Rule.segments, ih]
  have htexts : (texts.map Segment.text).mapM Rule.plainText? = some texts := by
    rw [mapM_plainText?, if_neg (by simp [Rule.plainText?]), List.filterMap_map]
    exact congrArg some List.filterMap_some
  rw [Rule.stringForm, hsegments, pure_bind, htexts]
  rfl

/-- Strings without code are read as the plain string of all their characters. -/
theorem run_strings_of_isText {first : List StringPart} (h : PartsJoined first) (read : Reader)
    (s : State)
    (htext : ∀ parts ∈ first :: s.cursor.strings.1, ∀ part ∈ parts, part.isText = true) :
    ∃ content, (Rule.strings read first).run s =
        .ok (.str content, { s with cursor := s.cursor.strings.2 }) ∧
      content.toList.map Piece.char = (first :: s.cursor.strings.1).flatten.flatMap (·.pieces) := by
  obtain ⟨-, hpieces⟩ := foldl_appendParts_spec h s.cursor.strings.1
  have hall : ∀ part ∈ s.cursor.strings.1.foldl appendParts first,
      part ∈ Set.range StringPart.text := by
    intro part hpart
    cases part with
    | text content => exact ⟨content, rfl⟩
    | code source line =>
      -- the code would be a piece of one of the strings, and these have only characters
      have hmem : Piece.code source line ∈
          (s.cursor.strings.1.foldl appendParts first).flatMap (·.pieces) :=
        List.mem_flatMap.2 ⟨_, hpart, List.mem_singleton_self _⟩
      rw [hpieces] at hmem
      obtain ⟨found, hfound, hmem⟩ := List.mem_flatMap.1 hmem
      obtain ⟨parts, hparts, hfound⟩ := List.mem_flatten.1 hfound
      cases found with
      | text content => simp [StringPart.pieces] at hmem
      | code => cases htext parts hparts _ hfound
  obtain ⟨texts, hparts⟩ := (Set.range_list_map StringPart.text).ge hall
  rw [← hparts] at hpieces
  refine ⟨String.join texts, ?_, ?_⟩
  · have hrun := run_stringForm_of_texts read texts { s with cursor := s.cursor.strings.2 }
    rw [hparts] at hrun
    exact hrun
  · rw [← hpieces, String.toList_join, List.map_flatMap, List.flatMap_map]
    rfl

/-- **Strings side by side are joined.**  Parts that are put behind joined parts leave them joined,
with all characters and all code in order.  So in the tree of a script each string with code
has a segment of code, no two texts in a row and no empty text, and strings without code are a plain
string of all their characters. -/
theorem strings_joined :
    (∀ first others, PartsJoined first →
      PartsJoined (others.foldl appendParts first) ∧
        (others.foldl appendParts first).flatMap (·.pieces) =
          (first :: others).flatten.flatMap (·.pieces)) ∧
    (∀ file source script, parseText file source = .ok script → ∀ node ∈ script, ∀ segments line,
      Node.Holds ⟨.template .double segments, line⟩ node → SegmentsJoined segments) ∧
    ∀ read first (s : State), PartsJoined first →
      (∀ parts ∈ first :: s.cursor.strings.1, ∀ part ∈ parts, part.isText = true) →
      ∃ content, (Rule.strings read first).run s =
          .ok (.str content, { s with cursor := s.cursor.strings.2 }) ∧
        content.toList.map Piece.char =
          (first :: s.cursor.strings.1).flatten.flatMap (·.pieces) := by
  refine ⟨fun first others h => foldl_appendParts_spec h others,
    fun file source script hscript node hnode => ?_,
    fun read first s h htext => run_strings_of_isText h read s htext⟩
  have hbalanced := balances_parseText file source
  rw [hscript] at hbalanced
  exact (hbalanced node hnode).joined trivial

/-- An empty string in front, and two texts that meet. -/
theorem strings_joined_emptyFirst :
    PartsJoined ([[.text "b", .code "x" 1], [.text ""], [.text "c"]].foldl appendParts [.text ""]) ∧
    (∃ script, parseText "Fastfile" "'' \"b\" \"c#\x7bx\x7d\"" = .ok script ∧
      sameNodes script [⟨.template .double
        [.text "bc", .code [⟨.call none "x" [] false, 1⟩]], 1⟩] = true ∧
      ∀ node ∈ script, node.StringsJoined) ∧
    ∃ content, (Rule.strings (readAt 0) [.text ""]).run
        (.start "Fastfile" [⟨.str [.text "b"], 1, true⟩, ⟨.done, 1, false⟩] [] 0) =
      .ok (.str content, .start "Fastfile" [⟨.done, 1, false⟩] [] 0) := by
  obtain ⟨hparts, htree, hplain⟩ := strings_joined
  have hempty := partsJoined_text ""
  refine ⟨(hparts _ _ hempty).1, ?_, ?_⟩
  · have hsame : (parseText "Fastfile" "'' \"b\" \"c#\x7bx\x7d\"").toOption.map
        (sameNodes · [⟨.template .double [.text "bc", .code [⟨.call none "x" [] false, 1⟩]], 1⟩]) =
          some true := by
      decide +kernel
    cases hparse : parseText "Fastfile" "'' \"b\" \"c#\x7bx\x7d\"" with
    | error failure =>
      rw [hparse] at hsame
      cases hsame
    | ok script =>
      rw [hparse] at hsame
      exact ⟨script, rfl, Option.some.inj hsame, htree _ _ script hparse⟩
  · obtain ⟨content, hrun, -⟩ := hplain (readAt 0) [.text ""]
      (.start "Fastfile" [⟨.str [.text "b"], 1, true⟩, ⟨.done, 1, false⟩] [] 0) hempty (by decide)
    exact ⟨content, hrun⟩

end LaneScript
