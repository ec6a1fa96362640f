import LaneScript.Proofs.LineComposition
import LaneScript.Proofs.Spelling

/-!
# Several heredocs on one line

A call whose arguments are heredocs, such as `f(<<'A', <<'B')`, has their bodies below its line, one
after the other.  Each argument leaves an empty string in its place and waits in a queue; at the end
of the line the bodies are read in the order of the queue and put into the places.

* `heredocLines?_body` — a body is read up to the line that closes it, whatever else it looks like;
* `readBodies_waiting` — the bodies of the queue are read one after the other;
* `fill_call` — each body goes to its own place.

`lex_heredocs` puts these together: behind the bodies the reading goes on as at the start of a text,
as many lines further down as the bodies have.
-/

namespace LaneScript

open Literal
open Text (isNameChar trimRight)
open List

/-- A heredoc whose body is taken as it stands: its name, and lines that do not close it. -/
structure RawHeredoc where
  id : List Char
  lines : List (List Char)
  id_ne_nil : id ≠ []
  id_chars : ∀ c ∈ id, isNameChar c = true
  lines_open : ∀ line ∈ lines, '\n' ∉ line ∧ line.getLast? ≠ some '\r' ∧ line ≠ id

namespace RawHeredoc

variable (doc : RawHeredoc)

/-- The opener as it is read. -/
def opener : HeredocOpener := ⟨doc.id, false, false, true⟩

/-- The opener as it is written. -/
def openerText : List Char := "<<'".toList ++ doc.id ++ ['\'']

/-- The text of the heredoc: its lines with their line ends. -/
def content : List Char := doc.lines.flatMap (· ++ ['\n'])

/-- The body as it is written, with the line that closes it. -/
def bodyText : List Char := doc.content ++ doc.id ++ ['\n']

end RawHeredoc

/-! ### Bodies -/

theorem heredocLines?_line (opener : HeredocOpener) {line : List Char} (hline : '\n' ∉ line)
    (hreturn : line.getLast? ≠ some '\r') (rest : List Char) :
    heredocLines? opener (line ++ '\n' :: rest) =
      if opener.isEnd line then some ([], line.length + 1)
      else (heredocLines? opener rest).map fun (lines, length) =>
        (line :: lines, line.length + 1 + length) := by
  have htake : (line ++ '\n' :: rest).takeWhile (· != '\n') = line := by
    have hinside : ∀ c ∈ line, (c != '\n') = true := by
      rintro c hc
      rw [bne_iff_ne]
      rintro rfl
      exact hline hc
    rw [takeWhile_append_of_pos hinside, takeWhile_cons_of_neg (by decide),
      append_nil]
  -- a carriage return at the end of the line would be cut off
  have htrim : trimRight (· == '\r') line = line := by
    refine rdropWhile_eq_self_iff.2 fun hne hlast => hreturn ?_
    rw [getLast?_eq_some_getLast hne, eq_of_beq hlast]
  have hdrop : (line ++ '\n' :: rest).drop (line.length + 1) = rest := by
    rw [← drop_drop, drop_left]
    rfl
  cases htext : line ++ '\n' :: rest with
  | nil => simp at htext
  | cons c tail =>
    rw [htext, drop_succ_cons] at hdrop
    rw [heredocLines?, ← htext, htake, htrim, hdrop]

/-- A body is read as its lines, up to the line that closes it. -/
theorem heredocLines?_body (doc : RawHeredoc) (rest : List Char) :
    heredocLines? doc.opener (doc.bodyText ++ rest) = some (doc.lines, doc.bodyText.length) := by
  obtain ⟨id, lines, -, hchars, hopen⟩ := doc
  unfold RawHeredoc.bodyText RawHeredoc.content RawHeredoc.opener
  dsimp only
  have hread := @heredocLines?_line ⟨id, false, false, true⟩
  induction lines with
  | nil =>
    have hline : '\n' ∉ id := fun hc => absurd (hchars _ hc) (by decide)
    have hreturn : id.getLast? ≠ some '\r' :=
      fun hlast => absurd (hchars _ (mem_of_getLast? hlast)) (by decide)
    simpa [HeredocOpener.isEnd] using hread hline hreturn rest
  | cons line lines ih =>
    obtain ⟨⟨hline, hreturn, hne⟩, hopen⟩ := forall_mem_cons.1 hopen
    have hfound := hread hline hreturn (lines.flatMap (· ++ ['\n']) ++ id ++ ['\n'] ++ rest)
    have hopened : HeredocOpener.isEnd ⟨id, false, false, true⟩ line = false :=
      beq_eq_false_iff_ne.2 hne
    rw [ih hopen, hopened] at hfound
    have hlength : ∀ n, line.length + 1 + n = line.length + (n + 1) := by omega
    simpa [hlength] using hfound

/-- How many lines the bodies take. -/
def bodyLines : List RawHeredoc → Nat
  | [] => 0
  | doc :: docs => doc.lines.length + 1 + bodyLines docs

/-- The heredocs of a line that wait for their bodies, the first of them in the place `slot`.
Between two of them there is a comma. -/
def waiting (line slot : Nat) : List RawHeredoc → List PendingHeredoc
  | [] => []
  | doc :: docs => ⟨doc.opener, line, slot⟩ :: waiting line (slot + 2) docs

/-- The one part of the heredoc's string. -/
def RawHeredoc.parts (doc : RawHeredoc) : List StringPart := [.text (String.ofList doc.content)]

/-- The parts of the strings, by their places. -/
def placedParts (slot : Nat) : List RawHeredoc → List (Nat × List StringPart)
  | [] => []
  | doc :: docs => (slot, doc.parts) :: placedParts (slot + 2) docs

/-- The bodies of the heredocs that wait are read in order. -/
theorem readBodies_waiting {file : String} (docs : List RawHeredoc) (openerLine slot line : Nat)
    (rest : List Char) :
    readBodies file (waiting openerLine slot docs) line (docs.flatMap (·.bodyText) ++ rest) =
      .ok ⟨placedParts slot docs, ⟨(docs.flatMap (·.bodyText)).length, bodyLines docs⟩⟩ := by
  induction docs generalizing slot line with
  | nil => rfl
  | cons doc docs ih =>
    have hparts : doc.opener.parts line doc.lines = .ok doc.parts := rfl
    rw [waiting, readBodies, flatMap_cons, List.append_assoc]
    simp only [heredocLines?_body, hparts, drop_left, ih]
    simp only [length_append]
    rfl

/-! ### The line of the call -/

theorem heredocOpener?_openerText (doc : RawHeredoc) (more : List Char) :
    heredocOpener? ('\'' :: doc.id ++ '\'' :: more) = some (doc.opener, doc.id.length + 2) := by
  have hid : (doc.id ++ '\'' :: more).takeWhile isNameChar = doc.id := by
    rw [takeWhile_append_of_pos doc.id_chars, takeWhile_cons_of_neg (by decide),
      append_nil]
  have hclosed : (doc.id ++ '\'' :: more).drop doc.id.length = '\'' :: more := drop_left
  simp [heredocOpener?, hid, hclosed, doc.id_ne_nil, RawHeredoc.opener, Nat.add_comm 1]

/-- Where no value is before it, an opener is taken as one. -/
theorem scan_openerText {s : LexState} (hvalue : s.context.afterValue = false) (doc : RawHeredoc)
    (more : List Char) :
    scan s (doc.openerText ++ more) = scan (s.openHeredoc doc.opener) more := by
  have htext : doc.openerText ++ more = '<' :: '<' :: ('\'' :: doc.id ++ '\'' :: more) := by
    simp [RawHeredoc.openerText]
  have hallows : s.context.allowsLiteral (some '\'') = true := by
    rw [Context.allowsLiteral, hvalue]
    rfl
  have hstep : nextStep s.context s.line '<' ('<' :: ('\'' :: doc.id ++ '\'' :: more)) =
      .ok (.heredoc doc.opener (doc.id.length + 4)) := by
    rw [nextStep_mark (by decide) (startsLine_of_ne (by decide) (by decide))]
    have hopener := heredocOpener?_openerText doc more
    rw [cons_append] at hopener ⊢
    simp only [literalStep, head?_cons, drop_succ_cons, drop_zero, hallows, hopener]
    rw [Nat.add_comm]
    rfl
  have hdrop : ('<' :: ('\'' :: doc.id ++ '\'' :: more)).drop (doc.id.length + 3) = more := by
    simp
  rw [htext, scan, hstep]
  exact congrArg _ hdrop

/-- The arguments behind the first one, as they are written. -/
def furtherText (docs : List RawHeredoc) : List Char :=
  docs.flatMap fun doc => ',' :: ' ' :: doc.openerText

/-- The tokens of the arguments behind the first one, whose strings have the given parts. -/
def furtherTokens (line : Nat) (parts : RawHeredoc → List StringPart) (docs : List RawHeredoc) :
    List Located :=
  docs.flatMap fun doc => [⟨.comma, line, false⟩, ⟨.str (parts doc), line, true⟩]

theorem scan_further (file : String) (line : Nat) (docs : List RawHeredoc) (tokens : Array Located)
    (pending : List PendingHeredoc) (more : List Char) :
    scan ⟨file, tokens, .none, line, pending⟩ (furtherText docs ++ more) =
      scan ⟨file, tokens ++ (furtherTokens line (fun _ => []) docs).toArray, .none, line,
        pending ++ waiting line (tokens.size + 1) docs⟩ more := by
  induction docs generalizing tokens pending with
  | nil => simp [furtherText, furtherTokens, waiting]
  | cons doc docs ih =>
    have htext : furtherText (doc :: docs) ++ more =
        [','] ++ (' ' :: (doc.openerText ++ (furtherText docs ++ more))) := by
      simp [furtherText]
    have hcomma := fun context => @lexes_punctuation ',' context .comma (by decide)
    rw [htext, scan_lexes (hcomma _ _), scan_blank, scan_openerText]
    · -- the comma and the place of the body are two tokens more
      refine (ih _ _).trans ?_
      simp [LexState.take, LexState.push, furtherTokens, waiting, Lexeme.onLine, Gap.isSpaced]
    · simp [LexState.context, LexState.take, LexState.push, Context.afterValue, Token.endsValue,
        Lexeme.onLine]

/-- The line of the call as it is written, up to its end. -/
def callText (docs : List RawHeredoc) : List Char :=
  "f(".toList ++ ", ".toList.intercalate (docs.map (·.openerText)) ++ ")\n".toList

theorem callText_cons (first : RawHeredoc) (others : List RawHeredoc) :
    callText (first :: others) =
      'f' :: '(' :: (first.openerText ++ (furtherText others ++ [')', '\n'])) := by
  have harguments : ", ".toList.intercalate ((first :: others).map (·.openerText)) =
      first.openerText ++ furtherText others := by
    induction others generalizing first with
    | nil => simp [furtherText]
    | cons doc docs ih =>
      rw [map_cons, map_cons, intercalate_cons_cons, ← map_cons, ih]
      simp [furtherText]
  rw [callText, harguments]
  simp

/-- The tokens of the call, whose strings have the given parts. -/
def callTokens (line : Nat) (parts : RawHeredoc → List StringPart) (first : RawHeredoc)
    (others : List RawHeredoc) : List Located :=
  [⟨.word "f", line, true⟩, ⟨.lparen, line, false⟩, ⟨.str (parts first), line, false⟩] ++
    furtherTokens line parts others ++ [⟨.rparen, line, false⟩, ⟨.newline, line, false⟩]

/-- The end of the line is the last of the tokens. -/
theorem callTokens_eq (line : Nat) (parts : RawHeredoc → List StringPart) (first : RawHeredoc)
    (others : List RawHeredoc) :
    callTokens line parts first others =
      [⟨.word "f", line, true⟩, ⟨.lparen, line, false⟩, ⟨.str (parts first), line, false⟩] ++
        furtherTokens line parts others ++ [⟨.rparen, line, false⟩] ++
        [⟨.newline, line, false⟩] := by
  simp [callTokens]

/-- At the end of the line every argument has its place, and waits for its body. -/
theorem scan_callText (file : String) (line : Nat) (first : RawHeredoc) (others : List RawHeredoc)
    (more : List Char) :
    scan (.start file line) (callText (first :: others) ++ more) =
      scan ⟨file, (callTokens line (fun _ => []) first others).dropLast.toArray, .none, line,
        waiting line 2 (first :: others)⟩ ('\n' :: more) := by
  have hname : isNameText "f".toList = true := by decide
  have htext : callText (first :: others) ++ more = "f".toList ++ (['('] ++ (first.openerText ++
      (furtherText others ++ ([')'] ++ '\n' :: more)))) := by
    simp [callText_cons]
  have hparen := fun context => @lexes_punctuation '(' context .lparen (by decide)
  have hclose := fun context => @lexes_punctuation ')' context .rparen (by decide)
  rw [htext, scan_lexes (lexes_name hname (startsLine_of_ne (by decide) (by decide)) rfl),
    scan_lexes (hparen _ _), scan_openerText]
  · refine (scan_further file line others _ _ _).trans ?_
    rw [scan_lexes (hclose _ _)]
    -- a small letter makes a word
    have hletter : Text.isUppercase 'f' = false := by decide
    rw [callTokens_eq, dropLast_concat]
    simp [LexState.take, LexState.push, LexState.start, waiting, Lexeme.onLine, Gap.isSpaced,
      hletter]
  · simp [LexState.context, LexState.take, LexState.push, Context.afterValue, Token.endsValue,
      Lexeme.onLine]

/-! ### Bodies in their places -/

theorem toList_modify_str {tokens : Array Located} {before after : List Located} {here : Located}
    (h : tokens.toList = before ++ here :: after) (parts : List StringPart) :
    (tokens.modify before.length fun t => { t with token := .str parts }).toList =
      before ++ { here with token := .str parts } :: after := by
  have hmodify := modifyTailIdx_add
    (modifyHead fun t : Located => { t with token := .str parts }) 0 before (here :: after)
  rw [Array.toList_modify, h]
  exact hmodify

/-- Each of the bodies goes to the place that waits for it. -/
theorem fill_further (line : Nat) (extent : Extent) (after : List Located) {docs : List RawHeredoc}
    {before : List Located} {s : LexState}
    (hs : s.tokens.toList = before ++ (furtherTokens line (fun _ => []) docs ++ after)) :
    (s.fill ⟨placedParts (before.length + 1) docs, extent⟩).tokens.toList =
      before ++ (furtherTokens line (·.parts) docs ++ after) := by
  induction docs generalizing before s with
  | nil => exact hs
  | cons doc docs ih =>
    have hplace : s.tokens.toList = (before ++ [⟨.comma, line, false⟩]) ++
        ⟨.str [], line, true⟩ :: (furtherTokens line (fun _ => []) docs ++ after) := by
      rw [hs]
      simp [furtherTokens]
    have hfirst := toList_modify_str hplace doc.parts
    rw [length_append, append_cons] at hfirst
    -- the others follow behind the comma and this string
    have hothers := ih (s := { s with tokens := _ }) hfirst
    rw [length_append, length_append] at hothers
    refine hothers.trans ?_
    simp [furtherTokens]

/-- The bodies of the queue make the strings of the call. -/
theorem fill_call (line : Nat) (extent : Extent) {first : RawHeredoc} {others : List RawHeredoc}
    {s : LexState} (hs : s.tokens.toList = callTokens line (fun _ => []) first others) :
    (s.fill ⟨placedParts 2 (first :: others), extent⟩).tokens.toList =
      callTokens line (·.parts) first others := by
  have hplace : s.tokens.toList = [⟨.word "f", line, true⟩, ⟨.lparen, line, false⟩] ++
      ⟨.str [], line, false⟩ :: (furtherTokens line (fun _ => []) others ++
        [⟨.rparen, line, false⟩, ⟨.newline, line, false⟩]) := by
    rw [hs]
    simp [callTokens]
  have hfirst := toList_modify_str hplace first.parts
  rw [append_cons] at hfirst
  refine (fill_further line extent _ (s := { s with tokens := _ }) hfirst).trans ?_
  simp [callTokens]

/-! ### The whole text -/

/-- Behind the bodies a line starts, and the tokens of the call are complete. -/
theorem scan_call (file : String) (line : Nat) (first : RawHeredoc) (others : List RawHeredoc)
    (rest : List Char) :
    ∃ s : LexState, s.AtLineStart ∧ s.file = file ∧
      s.line = line + 1 + bodyLines (first :: others) ∧
      s.tokens.toList = callTokens line (·.parts) first others ∧
      scan (.start file line) (callText (first :: others) ++
        ((first :: others).flatMap (·.bodyText) ++ rest)) = scan s rest := by
  generalize hwait : LexState.mk file (callTokens line (fun _ => []) first others).dropLast.toArray
    .none line (waiting line 2 (first :: others)) = s
  have hbodies : readBodies s.file s.pending (s.line + 1)
      ((first :: others).flatMap (·.bodyText) ++ rest) = .ok ⟨placedParts 2 (first :: others),
        ⟨((first :: others).flatMap (·.bodyText)).length, bodyLines (first :: others)⟩⟩ := by
    rw [← hwait]
    exact readBodies_waiting _ _ _ _ _
  -- the closing parenthesis is no line end, so the line gets one
  have hclosed : s.endLine.tokens.toList = callTokens line (fun _ => []) first others := by
    rw [LexState.toList_tokens_endLine, ← hwait, callTokens_eq, dropLast_concat, closeLine,
      getLast?_concat, if_neg (by simp)]
    rfl
  have hround := LexState.Round.lineEnd (nextStep_lineEnd s.context s.line _) hbodies
  have htokens := fill_call line
    ⟨((first :: others).flatMap (·.bodyText)).length, bodyLines (first :: others)⟩ hclosed
  refine ⟨_, ⟨?_, rfl, .inr ?_⟩, ?_, ?_, htokens, ?_⟩
  · unfold LexState.fill LexState.endLine
    rfl
  · rw [← Array.getLast?_toList, htokens, callTokens_eq, getLast?_concat]
    rfl
  · exact s.file_endLine.trans (congrArg LexState.file hwait.symm)
  · have hline : s.endLine.line = s.line + 1 := by
      unfold LexState.endLine
      rfl
    change s.endLine.line + _ = _
    rw [hline, ← hwait]
  · rw [scan_callText, hwait, hround.scan_eq, drop_left]

/-- **The heredocs of a line get their bodies in order.**  The i-th string of the call is the i-th
body as it stands, and what is below the bodies is read as on its own, with its lines counted on; it
is at fault where that is. -/
theorem lex_heredocs (file : String) (line : Nat) (first : RawHeredoc) (others : List RawHeredoc)
    (rest : String) :
    lexFrom file line (String.ofList (callText (first :: others) ++
        (first :: others).flatMap (·.bodyText)) ++ rest) =
      (lexFrom file (line + 1 + bodyLines (first :: others)) rest).map
        (callTokens line (·.parts) first others ++ ·) := by
  obtain ⟨s, hstart, rfl, hline, htokens, hscan⟩ := scan_call file line first others rest.toList
  have htext : (String.ofList (callText (first :: others) ++
      (first :: others).flatMap (·.bodyText)) ++ rest).toList = callText (first :: others) ++
        ((first :: others).flatMap (·.bodyText) ++ rest.toList) := by
    rw [String.toList_append, String.toList_ofList, List.append_assoc]
  rw [← htext] at hscan
  rw [lexFrom_of_atLineStart hstart hscan, hline, htokens]

/-- A body that looks like code, a quote, the end of the script and the end of the other heredoc. -/
def firstDoc : RawHeredoc where
  id := ['A']
  lines := ["B".toList, "x = \"#\x7b\\n".toList, "__END__".toList, []]
  id_ne_nil := by decide
  id_chars := forall_mem_of_all (by decide)
  lines_open := by decide +kernel

def secondDoc : RawHeredoc where
  id := ['B']
  lines := ["A".toList]
  id_ne_nil := by decide
  id_chars := forall_mem_of_all (by decide)
  lines_open := by decide +kernel

theorem lex_heredocs_lookalikes :
    lexFrom "Fastfile" 1 "f(<<'A', <<'B')\nB\nx = \"#\x7b\\n\n__END__\n\nA\nA\nB\n/a/" =
      .ok [⟨.word "f", 1, true⟩, ⟨.lparen, 1, false⟩,
        ⟨.str [.text "B\nx = \"#\x7b\\n\n__END__\n\n"], 1, false⟩, ⟨.comma, 1, false⟩,
        ⟨.str [.text "A\n"], 1, true⟩, ⟨.rparen, 1, false⟩, ⟨.newline, 1, false⟩,
        ⟨.regex "a" "", 9, true⟩, ⟨.done, 9, true⟩] := by
  have htext : String.ofList (callText [firstDoc, secondDoc] ++
      [firstDoc, secondDoc].flatMap (·.bodyText)) ++ "/a/" =
        "f(<<'A', <<'B')\nB\nx = \"#\x7b\\n\n__END__\n\nA\nA\nB\n/a/" := by
    decide +kernel
  have hrest : lexFrom "Fastfile" (1 + 1 + bodyLines [firstDoc, secondDoc]) "/a/" =
      .ok [⟨.regex "a" "", 9, true⟩, ⟨.done, 9, true⟩] := by
    decide +kernel
  rw [← htext, lex_heredocs "Fastfile" 1 firstDoc [secondDoc] "/a/", hrest]
  decide +kernel

end LaneScript
