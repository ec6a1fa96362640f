import LaneScript.Proofs.StringBodies
import Mathlib.Data.List.Induction

/-!
# Strings side by side

The parts of strings that stand side by side are put one behind the other.  A text grows the text
before it, so that the pieces that they stand for, characters and code, are those of all the strings
in order, and the parts are joined as those of one string are (`foldl_appendParts_spec`).

In between, the first part may be an empty text with parts behind it; no other part can be, which is
what `PartsGrow` keeps.  It is taken away at the end of each string.

A literal with code in it has joined segments, `SegmentsJoined`, where its parts are joined.
-/

namespace LaneScript

open Literal
open List

variable {parts : List StringPart}

/-! ### Parts put behind others -/

/-- The characters and the code that a part stands for. -/
def StringPart.pieces : StringPart → List Piece
  | .text content => content.toList.map .char
  | .code source line => [.code source line]

theorem StringPart.pieces_eq_nil {part : StringPart} (h : part.isEmptyText = true) :
    part.pieces = [] := by
  cases part with
  | text content => simpa [pieces, isEmptyText] using h
  | code source line => cases h

/-- Parts that others are put behind: only the first of them may be an empty text. -/
structure PartsGrow (parts : List StringPart) : Prop where
  ne_nil : parts ≠ []
  divided : parts.IsChain fun part next => ¬ (part.isText = true ∧ next.isText = true)
  full : ∀ part ∈ parts.tail, part.isEmptyText = false

theorem PartsJoined.grow (h : PartsJoined parts) : PartsGrow parts := by
  refine ⟨h.ne_nil, h.divided, fun part hpart => Bool.eq_false_iff.2 fun hempty => ?_⟩
  rw [h.only part (mem_of_mem_tail hpart) hempty] at hpart
  cases hpart

/-- One part more, behind the last one or in its place. -/
theorem partsGrow_concat {before : List StringPart} {last : StringPart}
    (hbefore : ∀ part ∈ before.tail, part.isEmptyText = false)
    (hdivided : (before ++ [last]).IsChain
      fun part next => ¬ (part.isText = true ∧ next.isText = true))
    (hlast : before ≠ [] → last.isEmptyText = false) : PartsGrow (before ++ [last]) := by
  refine ⟨append_ne_nil_of_right_ne_nil _ (cons_ne_nil _ _), hdivided, ?_⟩
  cases before with
  | nil => exact forall_mem_nil _
  | cons first before =>
    exact forall_mem_append.2
      ⟨hbefore, forall_mem_singleton.2 (hlast (cons_ne_nil _ _))⟩

/-- A part put behind others keeps them growing, and its pieces come behind theirs. -/
theorem appendPart_spec (h : PartsGrow parts) (part : StringPart) :
    PartsGrow (appendPart parts part) ∧
      (appendPart parts part).flatMap (·.pieces) = parts.flatMap (·.pieces) ++ part.pieces := by
  cases part with
  | code source line =>
    refine ⟨partsGrow_concat h.full ?_ fun _ => rfl, by simp [appendPart]⟩
    exact h.divided.append (.singleton _) (by simp [StringPart.isText])
  | text content =>
    by_cases hcontent : content.isEmpty = true
    · rw [appendPart, if_pos hcontent]
      have hpieces : (StringPart.text content).pieces = [] := StringPart.pieces_eq_nil hcontent
      exact ⟨h, by rw [hpieces, append_nil]⟩
    · obtain ⟨before, last, rfl⟩ := (eq_nil_or_concat' parts).resolve_left h.ne_nil
      rw [appendPart, if_neg hcontent, getLast?_concat]
      cases last with
      | code source line =>
        refine ⟨partsGrow_concat h.full ?_ fun _ => Bool.eq_false_iff.2 hcontent, by simp⟩
        refine h.divided.append (.singleton _) ?_
        simp [StringPart.isText]
      | text content' =>
        rw [dropLast_concat]
        refine ⟨partsGrow_concat ?_ ?_ fun _ => ?_, by simp [StringPart.pieces]⟩
        · exact fun part hpart => h.full part ((sublist_append_left _ _).tail.subset hpart)
        · -- a text in the place of a text
          simpa [isChain_append, StringPart.isText] using h.divided
        · simpa [StringPart.isEmptyText] using fun _ => hcontent

theorem foldl_appendPart_spec (h : PartsGrow parts) (others : List StringPart) :
    PartsGrow (others.foldl appendPart parts) ∧
      (others.foldl appendPart parts).flatMap (·.pieces) =
        parts.flatMap (·.pieces) ++ others.flatMap (·.pieces) := by
  induction others generalizing parts with
  | nil => simpa using h
  | cons part others ih =>
    obtain ⟨hgrow, hpieces⟩ := appendPart_spec h part
    obtain ⟨hgrow, hmore⟩ := ih hgrow
    exact ⟨hgrow, by simp [hmore, hpieces]⟩

/-- Behind a string the empty text is taken away, unless it is all there is. -/
theorem appendParts_spec (h : PartsJoined parts) (others : List StringPart) :
    PartsJoined (appendParts parts others) ∧
      (appendParts parts others).flatMap (·.pieces) =
        parts.flatMap (·.pieces) ++ others.flatMap (·.pieces) := by
  obtain ⟨hgrow, hpieces⟩ := foldl_appendPart_spec h.grow others
  rw [appendParts, ← hpieces]
  generalize others.foldl appendPart parts = found at hgrow
  obtain ⟨first, behind, rfl⟩ := exists_cons_of_ne_nil hgrow.ne_nil
  cases behind with
  | nil => exact ⟨⟨hgrow.ne_nil, hgrow.divided, by simp⟩, rfl⟩
  | cons next behind =>
    have hfull : ∀ part ∈ next :: behind, part.isEmptyText = false := hgrow.full
    have hbehind : (next :: behind).filter (!·.isEmptyText) = next :: behind := by
      simpa [filter_eq_self] using hfull
    rw [if_pos (by simp), filter_cons, hbehind]
    cases hfirst : first.isEmptyText with
    | true =>
      refine ⟨partsJoined_of_full (cons_ne_nil _ _) hgrow.divided.tail hfull, ?_⟩
      simp [StringPart.pieces_eq_nil hfirst]
    | false =>
      refine ⟨partsJoined_of_full (cons_ne_nil _ _) hgrow.divided ?_, rfl⟩
      exact fun part hpart => (mem_cons.1 hpart).elim (fun h => h ▸ hfirst) (hfull part)

/-- **Strings side by side are one string.**  Its parts are joined, and stand for what the parts of
all the strings do. -/
theorem foldl_appendParts_spec {first : List StringPart} (h : PartsJoined first)
    (others : List (List StringPart)) :
    PartsJoined (others.foldl appendParts first) ∧
      (others.foldl appendParts first).flatMap (·.pieces) =
        (first :: others).flatten.flatMap (·.pieces) := by
  induction others generalizing first with
  | nil => simpa using h
  | cons parts others ih =>
    obtain ⟨hjoined, hpieces⟩ := appendParts_spec h parts
    obtain ⟨hjoined, hmore⟩ := ih hjoined
    refine ⟨hjoined, ?_⟩
    rw [foldl_cons, hmore]
    simp [hpieces]

/-! ### Literals -/

/-- The text of a part without code. -/
def StringPart.text? : StringPart → Option String
  | .text content => some content
  | .code _ _ => none

/-- The segments of a literal with code in it: between two texts there is code, and no text is
empty. -/
structure SegmentsJoined (segments : List Segment) : Prop where
  code : ∃ body, .code body ∈ segments
  divided : segments.IsChain fun segment next =>
    ¬ ((Rule.plainText? segment).isSome ∧ (Rule.plainText? next).isSome)
  full : .text "" ∉ segments

/-- The texts of a literal that holds no code. -/
theorem mapM_plainText? (segments : List Segment) :
    segments.mapM Rule.plainText? = if none ∈ segments.map Rule.plainText? then none
      else some (segments.filterMap Rule.plainText?) := by
  induction segments with
  | nil => rfl
  | cons segment segments ih =>
    rw [mapM_cons, ih]
    cases segment with
    | code body => rfl
    | text content =>
      simp only [Rule.plainText?, Option.pure_def, Option.bind_eq_bind, Option.bind_some,
        map_cons, mem_cons, reduceCtorEq, false_or]
      split <;> rfl

/-- The segments that are read for joined parts are joined. -/
theorem segmentsJoined_of_parts {segments : List Segment} (hparts : PartsJoined parts)
    (hsegments : segments.map Rule.plainText? = parts.map StringPart.text?)
    (hcode : none ∈ segments.map Rule.plainText?) : SegmentsJoined segments := by
  refine ⟨?_, ?_, fun hempty => ?_⟩
  · obtain ⟨segment, hsegment, hnone⟩ := mem_map.1 hcode
    cases segment with
    | text content => cases hnone
    | code body => exact ⟨body, hsegment⟩
  · have htext : ∀ part : StringPart, part.isText = part.text?.isSome := by
      intro part
      cases part <;> rfl
    have hdivided : (parts.map StringPart.text?).IsChain fun text next =>
        ¬ (text.isSome = true ∧ next.isSome = true) := by
      rw [isChain_map]
      simpa only [htext] using hparts.divided
    rw [← hsegments] at hdivided
    exact (isChain_map _).1 hdivided
  -- an empty text is the only part, and then there is no code
  · have hmem : some "" ∈ parts.map StringPart.text? := by
      rw [← hsegments]
      exact mem_map_of_mem hempty
    obtain ⟨part, hpart, htext⟩ := mem_map.1 hmem
    cases part with
    | code source line => cases htext
    | text content =>
      cases htext
      rw [hsegments, hparts.only _ hpart rfl] at hcode
      simp [StringPart.text?] at hcode

end LaneScript
