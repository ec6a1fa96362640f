import LaneScript.Proofs.WrittenTokens

/-!
# Reading on in a text

`LexState.Reading` is the invariant of the reading of a text: the code in the tokens so far lies on
the lines of the text, the heredocs still to be read have their places among the tokens, and the
lines still to come are lines of the text.  Only the closing line of a heredoc may be counted
without a line end, where it is the last of the text; then nothing is left to read.

Each kind of step keeps it.  Most has to be said of the line ends behind which heredocs are read.
-/

namespace LaneScript

open Literal
open Text (trimRight)
open List

variable {extent : Extent} {rest : List Char} {file : String}

/-! ### Heredocs -/

theorem newlinesOf_takeWhile (text : List Char) : newlinesOf (text.takeWhile (· != '\n')) = 0 := by
  refine count_eq_zero.2 fun h => ?_
  have hnewline := mem_takeWhile_imp h
  simp at hnewline

theorem trimRight_sublist (drop : Char → Bool) (text : List Char) :
    (trimRight drop text).Sublist text := by
  have hsublist := (dropWhile_sublist drop (l := text.reverse)).reverse
  rwa [reverse_reverse] at hsublist

theorem newlinesOf_eq_zero_of_sublist {part text : List Char} (h : part.Sublist text)
    (htext : newlinesOf text = 0) : newlinesOf part = 0 :=
  Nat.eq_zero_of_le_zero (htext ▸ h.count_le '\n')

/-- Behind a line is its line end, unless it is the last one. -/
theorem drop_line (text : List Char) :
    text.drop (text.takeWhile (· != '\n')).length = [] ∨
      ∃ rest, text.drop (text.takeWhile (· != '\n')).length = '\n' :: rest := by
  cases h : text.drop (text.takeWhile (· != '\n')).length with
  | nil => exact .inl rfl
  | cons c rest =>
    have hc : (c != '\n') = false := head_of_drop_takeWhile (p := (· != '\n')) h
    rw [bne_eq_false_iff_eq.1 hc]
    exact .inr ⟨rest, rfl⟩

/-- Behind a line end a line starts. -/
theorem behind_line {n : Nat} {text rest : List Char} (h : text.drop n = '\n' :: rest) :
    Gap.behind (text.take (n + 1)) = .lineStart := by
  have hhead : text[n]? = some '\n' := by
    rw [← head?_drop, h]
    rfl
  exact Gap.behind_take_add_one hhead

/-- What is read of a heredoc: its lines have no line ends, and all but the closing one have one
behind them.  So has the closing line, if there is text behind it.  The lines are a part of the
text, without the closing one. -/
structure LinesRead (text : List Char) (lines : List (List Char)) (length : Nat) : Prop where
  plain : ∀ line ∈ lines, newlinesOf line = 0
  lines_le : lines.length + newlinesOf (text.drop length) ≤ newlinesOf text
  closing : text.drop length = [] ∨
    lines.length + 1 = newlinesOf (text.take length) ∧ Gap.behind (text.take length) = .lineStart
  length_le : (lines.flatMap (· ++ ['\n'])).length + (text.drop length).length ≤ text.length

/-- The lines of a heredoc are those up to its terminator. -/
theorem linesRead_of_heredocLines? {opener : HeredocOpener} {text : List Char}
    {lines : List (List Char)} {length : Nat}
    (h : heredocLines? opener text = some (lines, length)) : LinesRead text lines length := by
  induction text using heredocLines?.induct opener generalizing lines length with
  | case1 =>
    rw [heredocLines?] at h
    cases h
  | case2 c rest line =>
    -- the closing line, with or without a line end
    rename_i hend
    rw [heredocLines?, if_pos hend] at h
    cases h
    refine ⟨by simp, ?_, ?_, ?_⟩
    · rw [length_nil, Nat.zero_add]
      exact newlinesOf_drop_le _ _
    · rcases drop_line (c :: rest) with hdrop | ⟨tail, hdrop⟩
      · refine .inl ?_
        rw [← drop_drop, hdrop, drop_nil]
      · refine .inr ⟨?_, behind_line hdrop⟩
        rw [newlinesOf_take_run (p := (· != '\n')) rfl, hdrop]
        rfl
    · rw [length_drop, flatMap_nil, length_nil]
      omega
  | case3 c rest line =>
    -- a line of the body, and what is read behind it
    rename_i hend ih
    rw [heredocLines?, if_neg hend] at h
    obtain ⟨⟨others, count⟩, hothers, hfound⟩ := Option.map_eq_some_iff.1 h
    cases hfound
    have hread := ih hothers
    have hdrops : rest.drop line.length = ((c :: rest).drop line.length).drop 1 := by
      rw [drop_drop, drop_succ_cons]
    rcases drop_line (c :: rest) with hdrop | ⟨tail, hdrop⟩
    -- behind the last line there is no closing one
    · rw [hdrops, hdrop, drop_nil, heredocLines?] at hothers
      cases hothers
    · have htail : rest.drop line.length = tail := by
        rw [hdrops, hdrop]
        rfl
      have hcons : (c :: rest).drop (line.length + 1 + count) = tail.drop count := by
        rw [← drop_drop, ← htail, drop_succ_cons]
      have hle := newlinesOf_drop_le line.length (c :: rest)
      have hlength := congrArg List.length hdrop
      rw [hdrop, newlinesOf_lineEnd] at hle
      rw [length_drop, length_cons, length_cons] at hlength
      rw [htail] at hread
      have hlines := hread.lines_le
      refine ⟨forall_mem_cons.2 ⟨?_, hread.plain⟩, ?_, ?_, ?_⟩
      · exact newlinesOf_eq_zero_of_sublist (trimRight_sublist _ _) (newlinesOf_takeWhile _)
      · rw [hcons, length_cons]
        omega
      · rw [hcons, length_cons]
        refine hread.closing.imp_right fun hclosing => ⟨?_, ?_⟩
        · rw [Nat.add_assoc line.length, newlinesOf_take_run (p := (· != '\n')) rfl, hdrop,
            Nat.add_comm 1 count, take_succ_cons, newlinesOf_lineEnd, ← hclosing.1]
        · rw [take_add, drop_succ_cons, htail]
          exact Gap.behind_append_lineStart (behind_line hdrop) hclosing.2
      · have hcontent := (trimRight_sublist (· == '\r')
          ((c :: rest).takeWhile (· != '\n'))).length_le
        have hothers := hread.length_le
        rw [hcons, flatMap_cons, length_append, length_append, length_singleton,
          length_cons]
        omega

theorem newlinesOf_flatMap {lines : List (List Char)} (h : ∀ line ∈ lines, newlinesOf line = 0) :
    newlinesOf (lines.flatMap (· ++ ['\n'])) = lines.length := by
  induction lines with
  | nil => rfl
  | cons line lines ih =>
    rw [forall_mem_cons] at h
    rw [flatMap_cons, newlinesOf_append, newlinesOf_append, newlinesOf_lineEnd, h.1, ih h.2,
      length_cons, Nat.zero_add, Nat.add_comm]
    rfl

theorem CodesFit.mono {last last' : Nat} {parts : List StringPart} (h : CodesFit last parts)
    (hle : last ≤ last') : CodesFit last' parts :=
  fun source line hcode => Nat.le_trans (h source line hcode) hle

/-- The body of a heredoc has the line ends of its lines, also without their indentation. -/
theorem newlinesOf_body (dedented : Bool) {lines : List (List Char)}
    (h : ∀ text ∈ lines, newlinesOf text = 0) :
    newlinesOf ((if dedented then dedent lines else lines).flatMap (· ++ ['\n'])) =
      lines.length := by
  cases dedented with
  | false => exact newlinesOf_flatMap h
  | true =>
    refine (newlinesOf_flatMap fun text htext => ?_).trans (length_map _)
    obtain ⟨source, hsource, rfl⟩ := mem_map.1 htext
    exact newlinesOf_eq_zero_of_sublist (drop_sublist _ _) (h source hsource)

/-- Without its indentation a heredoc is not longer. -/
theorem length_body_le (dedented : Bool) (lines : List (List Char)) :
    ((if dedented then dedent lines else lines).flatMap (· ++ ['\n'])).length ≤
      (lines.flatMap (· ++ ['\n'])).length := by
  cases dedented with
  | false => exact Nat.le_refl _
  | true =>
    rw [if_pos rfl, dedent]
    generalize sharedIndent lines = indent
    induction lines with
    | nil => exact Nat.le_refl _
    | cons line lines ih =>
      rw [map_cons, flatMap_cons, flatMap_cons, length_append,
        length_append, length_append, length_append, length_drop]
      omega

/-- What is read of the lines of a heredoc: the code lies on them, and there is no more to read in
the parts than in the lines. -/
structure PartsRead (last : Nat) (lines : List (List Char)) (parts : List StringPart) : Prop where
  codes : CodesFit last parts
  joined : PartsJoined parts
  weight_le : partsWeight parts ≤ (lines.flatMap (· ++ ['\n'])).length

/-- The lines of a body are scanned one by one. -/
theorem scans_parts (opener : HeredocOpener) (line : Nat) {lines : List (List Char)}
    (h : ∀ text ∈ lines, newlinesOf text = 0) :
    Scans (PartsRead (line + lines.length) lines) (opener.parts line lines) := by
  have hbody := newlinesOf_body opener.dedented h
  have hlength := length_body_le opener.dedented lines
  unfold HeredocOpener.parts
  -- a raw heredoc is one text, and holds no code
  refine .ite (fun _ => ⟨fun source codeLine hcode => ?_, partsJoined_text _, Nat.zero_le _⟩)
    fun _ => ?_
  · cases mem_singleton.1 hcode
  · refine (scans_scanBody _ _ _ _).map fun body hread => ⟨hread.codes.mono ?_, hread.joined,
      Nat.le_trans hread.weight_le_text hlength⟩
    have hle := newlines_le_of_counts hread.counts
    omega

/-- The text is over, or its last line is not behind the given one. -/
def LinesFit (last line : Nat) (text : List Char) : Prop :=
  text = [] ∨ line + newlinesOf text ≤ last

section LinesFit

variable {last line : Nat} {text : List Char}

/-- Where there is an extent, the text is not over. -/
theorem LinesFit.le_of_isOf (h : LinesFit last line text) (hextent : extent.IsOf text) :
    line + newlinesOf text ≤ last := by
  have hpos := hextent.length_pos
  have hle := hextent.length_le
  rcases h with rfl | h
  · rw [length_nil] at hle
    omega
  · exact h

/-- What is read takes its own lines from the bound. -/
theorem LinesFit.drop (h : LinesFit last line text) (hextent : extent.IsOf text) :
    LinesFit last (line + extent.newlines) (text.drop extent.length) := by
  have hle := h.le_of_isOf hextent
  have hnewlines := hextent.newlines_le
  exact .inr (by omega)

/-- Line ends that are counted are passed, so the lines behind them fit too. -/
theorem LinesFit.drop_of_counts (h : LinesFit last line text) (extent : Extent)
    (hextent : text.drop extent.length = [] ∨ CountsLines text extent) :
    LinesFit last (line + extent.newlines) (text.drop extent.length) := by
  rcases hextent with hnil | hcount
  · exact .inl hnil
  rcases h with rfl | hle
  · exact .inl drop_nil
  · have hnewlines := hcount.newlines_le
    exact .inr (by omega)

theorem LinesFit.endLine (h : LinesFit last line ('\n' :: rest)) :
    line + 1 + newlinesOf rest ≤ last := by
  rcases h with hnil | hlines
  · cases hnil
  · rw [newlinesOf_lineEnd] at hlines
    omega

/-- A heredoc has a closing line, so the text is not over, and the lines behind it fit too. -/
theorem LinesFit.heredoc (h : LinesFit last line text) {opener : HeredocOpener}
    {lines : List (List Char)} {length : Nat}
    (hfound : heredocLines? opener text = some (lines, length)) :
    line + newlinesOf text ≤ last ∧
      LinesFit last (line + lines.length + 1) (text.drop length) := by
  refine ⟨h.resolve_left fun hnil => ?_, h.drop_of_counts ⟨length, lines.length + 1⟩ ?_⟩
  · rw [hnil, heredocLines?] at hfound
    cases hfound
  · exact (linesRead_of_heredocLines? hfound).closing.imp_right And.left

end LinesFit

/-- How much there is to read in the bodies of some heredocs. -/
def bodiesWeight (bodies : List (Nat × List StringPart)) : Nat :=
  bodies.foldr (partsWeight ·.2 + ·) 0

/-- What is read of the bodies of heredocs.  They go to the places that wait for them.  They count
their lines, and behind them is the start of a line, unless the text ends there. -/
structure BodiesRead (pending : List PendingHeredoc) (line : Nat) (text : List Char)
    (bodies : HeredocBodies) : Prop where
  slots : bodies.parts.map (·.1) = pending.map (·.slot)
  codes : ∀ last, LinesFit last line text → ∀ body ∈ bodies.parts, CodesFit last body.2
  joined : ∀ body ∈ bodies.parts, PartsJoined body.2
  closing : text.drop bodies.extent.length = [] ∨ CountsLines text bodies.extent ∧
    Gap.behind (text.take bodies.extent.length) = .lineStart
  weight_le : bodiesWeight bodies.parts + (text.drop bodies.extent.length).length ≤ text.length

theorem bodiesRead_of_readBodies {line : Nat} {text : List Char} {pending : List PendingHeredoc}
    {bodies : HeredocBodies} (h : readBodies file pending line text = .ok bodies) :
    BodiesRead pending line text bodies := by
  induction pending generalizing line text bodies with
  | nil =>
    cases h
    exact ⟨rfl, fun _ _ => by simp, by simp, .inr ⟨rfl, rfl⟩, Nat.le_of_eq (Nat.zero_add _)⟩
  | cons heredoc others ih =>
    rw [readBodies] at h
    split at h
    · cases h
    next lines length hfound =>
      have hread := linesRead_of_heredocLines? hfound
      have hparts := scans_parts heredoc.opener line hread.plain
      split at h
      · cases h
      next parts hok =>
        rw [hok] at hparts
        cases hrest : readBodies file others (line + lines.length + 1) (text.drop length) with
        | error failure =>
          rw [hrest] at h
          cases h
        | ok rest =>
          rw [hrest] at h
          cases h
          have hothers := ih hrest
          refine ⟨congrArg (heredoc.slot :: ·) hothers.slots, fun last hlines => ?_,
            forall_mem_cons.2 ⟨hparts.joined, hothers.joined⟩, ?_, ?_⟩
          · obtain ⟨hfit, hnext⟩ := hlines.heredoc hfound
            -- the code of the first body lies on its own lines
            have hle := hread.lines_le
            exact forall_mem_cons.2 ⟨hparts.codes.mono (by omega), hothers.codes last hnext⟩
          · dsimp only
            rw [← drop_drop, take_add]
            rcases hread.closing with hnil | ⟨hlines, hgap⟩
            · -- the text ends with the first body, and nothing is behind it
              rw [hnil]
              exact .inl drop_nil
            · have hfirst : CountsLines text ⟨length, lines.length + 1⟩ := hlines
              exact hothers.closing.imp_right fun hclosing =>
                ⟨hfirst.append hclosing.1, Gap.behind_append_lineStart hgap hclosing.2⟩
          · have hweight := hparts.weight_le
            -- each body is paid for by its own lines
            have hlength := hread.length_le
            have hrestLength := hothers.weight_le
            rw [drop_drop] at hrestLength
            change partsWeight parts + bodiesWeight rest.parts +
              (text.drop (length + rest.extent.length)).length ≤ _
            omega

/-- A failure of the bodies is one of the text. -/
theorem readBodies_error {pending : List PendingHeredoc} {line : Nat} {text : List Char}
    {failure : Failure} (h : readBodies file pending line text = .error failure) :
    failure.fault.isOfText = true := by
  induction pending generalizing line text with
  | nil => cases h
  | cons heredoc others ih =>
    rw [readBodies] at h
    split at h
    · cases h
      rfl
    next lines length hfound =>
      have hparts := scans_parts heredoc.opener line (linesRead_of_heredocLines? hfound).plain
      split at h
      next fault hfault =>
        cases h
        rw [hfault] at hparts
        exact hparts
      next parts hok =>
        cases hrest : readBodies file others (line + lines.length + 1) (text.drop length) with
        | error failure' =>
          rw [hrest] at h
          cases h
          exact ih hrest
        | ok bodies =>
          rw [hrest] at h
          cases h

/-! ### The whole text -/

/-- The state of a reading whose text ends on the given line, with the text still to be read. -/
structure LexState.Reading (last : Nat) (s : LexState) (text : List Char) : Prop where
  codes : ∀ here ∈ s.tokens, CodesFit last here.token.parts
  slots : ∀ heredoc ∈ s.pending, heredoc.slot < s.tokens.size
  lines : LinesFit last s.line text

section Reading

variable {last : Nat} {s s' : LexState} {text : List Char}

namespace LexState

/-- The reading starts with nothing read. -/
theorem Reading.start (line : Nat) (text : List Char) :
    (LexState.start file line).Reading (line + newlinesOf text) text :=
  ⟨by simp [LexState.start], by simp [LexState.start], .inr (Nat.le_refl _)⟩

/-- Skipping keeps to the text. -/
theorem Reading.skip (h : s.Reading last text) (hextent : extent.IsOf text) :
    (s.skip text extent).Reading last (text.drop extent.length) :=
  ⟨h.codes, h.slots, h.lines.drop hextent⟩

/-- A token behind the others leaves the places of the heredocs as they are. -/
theorem Reading.push (h : s.Reading last text) (token : Token)
    (hcodes : CodesFit last token.parts) : (s.push token).Reading last text where
  codes here hhere := by
    rcases Array.mem_push.1 hhere with hhere | rfl
    · exact h.codes here hhere
    · exact hcodes
  slots heredoc hheredoc := by
    rw [LexState.push, Array.size_push]
    exact Nat.lt_succ_of_lt (h.slots heredoc hheredoc)
  lines := h.lines

/-- A token that is taken was read from the text. -/
theorem Reading.take (h : s.Reading last text) {lexeme : Lexeme}
    (hlexeme : lexeme.IsReadFrom s.line text) :
    (s.take lexeme).Reading last (text.drop lexeme.extent.length) := by
  have hlines := h.lines.drop hlexeme.extent
  -- the code of the lexeme lies on the lines of the lexeme, and these are lines of the text
  have hcodes : CodesFit last lexeme.token.parts := by
    refine hlexeme.codes.mono ?_
    have hle := h.lines.le_of_isOf hlexeme.extent
    have hnewlines := hlexeme.extent.newlines_le
    omega
  have hpush := h.push lexeme.token hcodes
  exact ⟨hpush.codes, hpush.slots, hlines⟩

theorem Reading.openHeredoc (h : s.Reading last text) {opener : HeredocOpener} {length : Nat}
    (hextent : Extent.IsOf ⟨length, 0⟩ text) :
    (s.openHeredoc opener).Reading last (text.drop length) := by
  have hpush := h.push (.str []) (codesFit_nil last)
  refine ⟨hpush.codes, fun heredoc hheredoc => ?_, h.lines.drop hextent⟩
  rcases mem_append.1 hheredoc with hheredoc | hheredoc
  · exact hpush.slots heredoc hheredoc
  · rw [mem_singleton.1 hheredoc]
    change s.tokens.size < (s.tokens.push _).size
    rw [Array.size_push]
    exact Nat.lt_succ_self _

theorem file_endLine (s : LexState) : s.endLine.file = s.file := by
  unfold endLine
  dsimp only
  split <;> rfl

theorem Reading.endLine (h : s.Reading last ('\n' :: rest)) : s.endLine.Reading last rest := by
  have hlines : LinesFit last (s.line + 1) rest := .inr h.lines.endLine
  unfold LexState.endLine
  dsimp only
  split
  · exact ⟨h.codes, h.slots, hlines⟩
  · have hpush := h.push .newline (codesFit_nil last)
    exact ⟨hpush.codes, hpush.slots, hlines⟩

/-- Only strings are put into the places of heredocs. -/
theorem forall_mem_fill {P : Token → Prop} {parts : List (Nat × List StringPart)}
    (hparts : ∀ body ∈ parts, P (.str body.2)) {tokens : Array Located}
    (h : ∀ here ∈ tokens, P here.token) :
    ∀ here ∈ parts.foldl (fun tokens (slot, parts) =>
      tokens.modify slot fun t => { t with token := .str parts }) tokens, P here.token := by
  induction parts generalizing tokens with
  | nil => exact h
  | cons body others ih =>
    rw [forall_mem_cons] at hparts
    refine ih hparts.2 fun here hhere => ?_
    obtain ⟨i, hi, rfl⟩ := Array.mem_iff_getElem.1 hhere
    rw [Array.getElem_modify]
    split
    · exact hparts.1
    · exact h _ (Array.getElem_mem _)

/-- The bodies behind a line end count their lines, and their code lies on these. -/
theorem Reading.fill {bodies : HeredocBodies} (h : s.Reading last ('\n' :: rest))
    (hbodies : BodiesRead s.pending (s.line + 1) rest bodies) :
    (s.endLine.fill bodies).Reading last (rest.drop bodies.extent.length) where
  codes := forall_mem_fill (P := fun token => CodesFit last token.parts)
    (hbodies.codes last (.inr h.lines.endLine)) h.endLine.codes
  slots heredoc hheredoc := by cases hheredoc
  lines := LinesFit.drop_of_counts (.inr h.lines.endLine) _ (hbodies.closing.imp_right And.left)

end LexState

/-- The state behind one step, where the text goes on. -/
theorem drop_of_isOf {c : Char} (h : extent.IsOf (c :: rest)) :
    rest.drop (extent.length - 1) = (c :: rest).drop extent.length := by
  obtain ⟨n, hn⟩ := Nat.exists_eq_add_one_of_ne_zero (Nat.ne_of_gt h.length_pos)
  rw [hn, Nat.add_sub_cancel, drop_succ_cons]

end Reading

/-! ### The tokens of a text -/

/-- The tokens of a text are those of the last state, and the end of the input. -/
theorem lexFrom_eq_ok {line : Nat} {source : String} {tokens : List Located}
    (h : lexFrom file line source = .ok tokens) :
    ∃ s, scan (.start file line) source.toList = .ok s ∧ s.pending = [] ∧
      tokens = (s.tokens.push ⟨.done, s.line, true⟩).toList := by
  unfold lexFrom at h
  cases hscan : scan (.start file line) source.toList with
  | error failure =>
    rw [hscan] at h
    cases h
  | ok s =>
    rw [hscan] at h
    dsimp only [bind, Except.bind] at h
    split at h
    · cases h
    next hpending =>
      cases h
      exact ⟨s, rfl, hpending, rfl⟩

end LaneScript
