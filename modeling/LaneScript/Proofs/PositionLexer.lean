import LaneScript.Proofs.PositionLexemes

/-!
# Tokens by positions

The reading of a whole buffer: where it stands, on which line, the tokens found so far and the
heredocs whose bodies are still to come.  What stands before a position is looked up in the buffer,
where `LexState` remembers it.

`lexFrom_eq` is the result: the tokens of a buffer are those of the text, so that no operation of
the reading is out of range, and every heredoc finds the place that is kept for its body.
-/

namespace LaneScript.Positions

open Literal
open Text (trimRight)
open List

variable {text : List Char} {file : String}

/-! ### Bodies of heredocs -/

/-- The lines of the body of a heredoc from a position on, and the position and the line behind the
closing one. -/
def heredocLines (file : String) (text : List Char) (heredoc : PendingHeredoc)
    (rounds pos line : Nat) : Checked Failure (List (List Char) × Nat × Nat) :=
  match rounds with
  | 0 => .error .breach
  | rounds + 1 =>
    if text.length ≤ pos then
      .error (.fault ⟨file, heredoc.line, .unterminatedHeredoc (String.ofList heredoc.opener.id)⟩)
    else do
      let lineEnd := runWhile (· != '\n') text pos
      let content := trimRight (· == '\r') (← slice text pos lineEnd)
      let next := if lineEnd < text.length then lineEnd + 1 else lineEnd
      let line ← addLines line 1
      if heredoc.opener.isEnd content then return ([], next, line)
      else
        let (lines, last) ← heredocLines file text heredoc rounds next line
        return (content :: lines, last)

/-- The parts of a heredoc, whose body starts on the given line. -/
def heredocParts (opener : HeredocOpener) (line : Nat) (lines : List (List Char)) :
    Checked Fault (List StringPart) :=
  let lines := if opener.dedented then dedent lines else lines
  let body := lines.flatMap (· ++ ['\n'])
  if opener.raw then .ok [.text (String.ofList body)]
  else do
    let (pieces, _) ← scanPieces body none true line (body.length + 1) 0 0
    return joinPieces pieces

/-- Puts a body into the place that is kept for it. -/
def fillSlot (tokens : Array Located) (slot : Nat) (parts : List StringPart) :
    Checked Failure (Array Located) :=
  if slot < tokens.size then .ok (tokens.modify slot fun t => { t with token := .str parts })
  else .error .breach

/-- A fault on the given line of a file as a failure. -/
def onLine {α : Type} (file : String) (line : Nat) (result : Checked Fault α) : Checked Failure α :=
  result.mapError fun
    | .breach => .breach
    | .fault fault => .fault ⟨file, line, fault⟩

/-- Reads the bodies of the heredocs in order and puts them into their places. -/
def readBodies (file : String) (text : List Char) :
    List PendingHeredoc → Nat → Nat → Array Located → Checked Failure (Array Located × Nat × Nat)
  | [], pos, line, tokens => .ok (tokens, pos, line)
  | heredoc :: others, pos, line, tokens => do
    let (lines, last, lastLine) ← heredocLines file text heredoc (text.length + 1) pos line
    let parts ← onLine file line (heredocParts heredoc.opener line lines)
    readBodies file text others last lastLine (← fillSlot tokens heredoc.slot parts)

theorem drop_min_length (text : List Char) (n : Nat) :
    text.drop (min n text.length) = text.drop n := by
  rcases Nat.le_total n text.length with hle | hle
  · rw [Nat.min_eq_left hle]
  · rw [Nat.min_eq_right hle, drop_length, drop_eq_nil_of_le hle]

/-- The lines of a heredoc at a position of the buffer. -/
theorem heredocLines?_drop (opener : HeredocOpener) {pos : Nat} (hpos : pos < text.length) :
    heredocLines? opener (text.drop pos) =
      if opener.isEnd (trimRight (· == '\r') ((text.drop pos).takeWhile (· != '\n'))) then
        some ([], ((text.drop pos).takeWhile (· != '\n')).length + 1)
      else
        (heredocLines? opener (text.drop (runWhile (· != '\n') text pos + 1))).map
          fun (lines, length) =>
            (trimRight (· == '\r') ((text.drop pos).takeWhile (· != '\n')) :: lines,
              ((text.drop pos).takeWhile (· != '\n')).length + 1 + length) := by
  have hline := runWhile_eq (· != '\n') text pos
  have hdrop := drop_eq_getElem_cons hpos
  rw [hdrop, heredocLines?, ← hdrop, drop_drop, hline]
  have hsum : pos + 1 + ((text.drop pos).takeWhile (· != '\n')).length =
      pos + ((text.drop pos).takeWhile (· != '\n')).length + 1 := by omega
  rw [hsum]

/-- Behind a line the reading goes on at the next one, or is at the end. -/
theorem lineEnd_next (text : List Char) {pos line last : Nat} (hpos : pos < text.length)
    (hlines : LinesFit last line (text.drop pos)) :
    pos < min (runWhile (· != '\n') text pos + 1) text.length ∧ line ≤ last ∧
      LinesFit last (line + 1) (text.drop (runWhile (· != '\n') text pos + 1)) := by
  have hline := runWhile_eq (· != '\n') text pos
  have hfit : line + newlinesOf (text.drop pos) ≤ last := by
    rcases hlines with hnil | hfit
    · rw [drop_eq_nil_iff] at hnil
      omega
    · exact hfit
  refine ⟨by omega, by omega, ?_⟩
  rcases drop_lineEnd text pos with hend | ⟨-, hcount⟩
  · rw [← drop_drop, hend]
    exact .inl rfl
  · exact .inr (by omega)

theorem heredocLines_eq (heredoc : PendingHeredoc) {rounds pos line last : Nat}
    (hrounds : text.length - pos < rounds) (hlines : LinesFit last line (text.drop pos))
    (hlast : last + 1 < lineBound) :
    heredocLines file text heredoc rounds pos line =
      match heredocLines? heredoc.opener (text.drop pos) with
      | none =>
        .error (.fault ⟨file, heredoc.line, .unterminatedHeredoc (String.ofList heredoc.opener.id)⟩)
      | some (lines, length) =>
        .ok (lines, min (pos + length) text.length, line + lines.length + 1) := by
  induction rounds generalizing pos line with
  | zero => omega
  | succ rounds ih =>
    rw [heredocLines]
    by_cases hpos : pos < text.length
    · have hline := runWhile_eq (· != '\n') text pos
      have hle := runWhile_le (· != '\n') (Nat.le_of_lt hpos)
      obtain ⟨hnext, hfirst, hfit⟩ := lineEnd_next text hpos hlines
      -- the last line has no line end to pass
      have hmin : (if runWhile (· != '\n') text pos < text.length then
          runWhile (· != '\n') text pos + 1 else runWhile (· != '\n') text pos) =
            min (runWhile (· != '\n') text pos + 1) text.length := by
        split <;> omega
      rw [if_neg (Nat.not_le_of_lt hpos), heredocLines?_drop heredoc.opener hpos]
      dsimp only [bind, Except.bind]
      rw [slice_runWhile _ (Nat.le_of_lt hpos), hmin, addLines_eq (by omega)]
      dsimp only
      split
      · simp only [hline, pure, Except.pure, length_nil, Nat.add_assoc]
      · rw [ih (by omega) (by rwa [drop_min_length]), drop_min_length]
        cases heredocLines? heredoc.opener (text.drop (runWhile (· != '\n') text pos + 1)) with
        | none => rfl
        | some found =>
          obtain ⟨lines, length⟩ := found
          have hend : min (min (runWhile (· != '\n') text pos + 1) text.length + length)
              text.length =
            min (pos + (((text.drop pos).takeWhile (· != '\n')).length + 1 + length))
              text.length := by omega
          have hcount : line + 1 + lines.length = line + (lines.length + 1) := by omega
          dsimp only [Option.map_some]
          rw [hend, hcount]
          rfl
    · have hle := Nat.le_of_not_lt hpos
      rw [if_pos hle, drop_eq_nil_of_le hle, heredocLines?]

theorem heredocParts_eq (opener : HeredocOpener) {line : Nat} {lines : List (List Char)}
    (hplain : ∀ text ∈ lines, newlinesOf text = 0) (hlines : line + lines.length < lineBound) :
    heredocParts opener line lines = safely (opener.parts line lines) := by
  have hbody := newlinesOf_body opener.dedented hplain
  unfold heredocParts HeredocOpener.parts
  dsimp only
  generalize (if opener.dedented then dedent lines else lines).flatMap (· ++ ['\n']) = body at *
  refine ite_eq_safely (fun _ => rfl) fun _ => ?_
  rw [scanPieces_eq _ _ (by omega) (by simpa [hbody] using hlines), scanBody, drop_zero,
    Nat.add_zero]
  cases Literal.scanPieces none true line body <;> rfl

/-- The bodies at a position are those of the text that remains there, and all of them find their
places. -/
theorem readBodies_eq {pending : List PendingHeredoc} {pos line last : Nat} {tokens : Array Located}
    (hpos : pos ≤ text.length) (hslots : ∀ heredoc ∈ pending, heredoc.slot < tokens.size)
    (hlines : LinesFit last line (text.drop pos)) (hlast : last + 1 < lineBound) :
    readBodies file text pending pos line tokens =
      safely ((LaneScript.readBodies file pending line (text.drop pos)).map fun bodies =>
        (bodies.parts.foldl (fun tokens (slot, parts) =>
            tokens.modify slot fun t => { t with token := .str parts }) tokens,
          min (pos + bodies.extent.length) text.length, line + bodies.extent.newlines)) := by
  induction pending generalizing pos line tokens with
  | nil =>
    rw [readBodies, LaneScript.readBodies]
    dsimp only [Except.map, safely_ok, foldl_nil]
    rw [Nat.add_zero, Nat.add_zero, Nat.min_eq_left hpos]
  | cons heredoc others ih =>
    rw [forall_mem_cons] at hslots
    rw [readBodies, LaneScript.readBodies, heredocLines_eq heredoc (by omega) hlines hlast]
    cases hfound : heredocLines? heredoc.opener (text.drop pos) with
    | none => rfl
    | some found =>
      obtain ⟨lines, length⟩ := found
      have hread := linesRead_of_heredocLines? hfound
      have hlinesLe := hread.lines_le
      obtain ⟨hfit, hnext⟩ := hlines.heredoc hfound
      rw [drop_drop, ← drop_min_length] at hnext
      dsimp only [bind, Except.bind]
      rw [heredocParts_eq heredoc.opener hread.plain (by omega)]
      cases heredoc.opener.parts line lines with
      | error fault => rfl
      | ok parts =>
        dsimp only [safely_ok, onLine, Except.mapError, fillSlot]
        -- to fill a place leaves the number of places as it is
        rw [if_pos hslots.1]
        dsimp only
        rw [ih (Nat.min_le_right _ _) (by simpa using hslots.2) hnext, drop_min_length,
          drop_drop]
        cases LaneScript.readBodies file others (line + lines.length + 1)
            (text.drop (pos + length)) with
        | error failure => rfl
        | ok bodies =>
          have hend : min (min (pos + length) text.length + bodies.extent.length) text.length =
              min (pos + (length + bodies.extent.length)) text.length := by omega
          have hcount : line + lines.length + 1 + bodies.extent.newlines =
              line + (lines.length + 1 + bodies.extent.newlines) := by omega
          dsimp only [Except.map, safely_ok]
          rw [hend, hcount]
          rfl

/-! ### The reading of a buffer -/

/-- The state of the reading of a buffer. -/
structure Reader where
  file : String
  tokens : Array Located
  line : Nat
  pending : List PendingHeredoc
  deriving DecidableEq, Repr

/-- Adds a token that starts here, behind the given gap. -/
def Reader.push (r : Reader) (gap : Gap) (token : Token) : Reader :=
  { r with tokens := r.tokens.push ⟨token, r.line, gap.isSpaced⟩ }

/-- What stands before a position. -/
def gapAt (text : List Char) (pos : Nat) : Checked Failure Gap :=
  if pos = 0 then .ok .lineStart
  else do
    let before ← countDown pos
    return .ofChar (← charAt text before)

/-- Ends the line at a position: behind it are the bodies of the heredocs. -/
def endLine (text : List Char) (pos : Nat) (gap : Gap) (r : Reader) :
    Checked Failure (Nat × Reader) := do
  let last := r.tokens.back?.map (·.token)
  let r' := if last == none || last == some .newline then r else r.push gap .newline
  let line ← addLines r.line 1
  let (tokens, pos, line) ← readBodies r.file text r.pending (pos + 1) line r'.tokens
  return (pos, ⟨r.file, tokens, line, []⟩)

/-- Reads a buffer to its end. -/
def scan (text : List Char) (rounds pos : Nat) (r : Reader) : Checked Failure Reader :=
  match rounds with
  | 0 => .error .breach
  | rounds + 1 =>
    if text.length ≤ pos then .ok r
    else do
      let c ← charAt text pos
      let gap ← gapAt text pos
      let context : Context := ⟨r.tokens.back?.map (·.token), gap⟩
      match ← onLine r.file r.line (nextStep context text pos r.line c) with
      | .stop => return r
      | .skip pos line => scan text rounds pos { r with line }
      | .lexeme found =>
        scan text rounds found.pos { r.push gap found.token with line := found.line }
      | .heredoc opener pos =>
        scan text rounds pos { r.push gap (.str []) with
          pending := r.pending ++ [⟨opener, r.line, r.tokens.size⟩] }
      | .lineEnd =>
        let (pos, r) ← endLine text pos gap r
        scan text rounds pos r

/-- The tokens of a buffer whose first line has the given number. -/
def lexFrom (file : String) (line : Nat) (source : String) : Checked Failure (List Located) := do
  let text := source.toList
  let r ← scan text (text.length + 1) 0 ⟨file, #[], line, []⟩
  match r.pending with
  | heredoc :: _ =>
    .error (.fault ⟨file, heredoc.line, .unterminatedHeredoc (String.ofList heredoc.opener.id)⟩)
  | [] => return (r.tokens.push ⟨.done, r.line, true⟩).toList

/-- The state without what the buffer tells. -/
def reader (s : LexState) : Reader := ⟨s.file, s.tokens, s.line, s.pending⟩

theorem gapAt_eq {pos : Nat} (h : pos ≤ text.length) :
    gapAt text pos = .ok (.behind (text.take pos)) := by
  cases pos with
  | zero => rfl
  | succ before =>
    have hchar := getElem?_eq_getElem h
    rw [Gap.behind_take_add_one hchar, gapAt, if_neg (Nat.succ_ne_zero before)]
    dsimp only [countDown, bind, Except.bind]
    rw [charAt_eq hchar]
    rfl

/-- The line end at a position is that of the text, also with bodies behind it. -/
theorem endLine_eq {pos last : Nat} {s : LexState} (hpos : pos < text.length)
    (hs : s.Reading last ('\n' :: text.drop (pos + 1))) (hlast : last + 1 < lineBound) :
    endLine text pos s.gap (reader s) =
      safely ((LaneScript.readBodies s.file s.pending (s.line + 1) (text.drop (pos + 1))).map
        fun bodies => (min (pos + 1 + bodies.extent.length) text.length,
          reader (s.endLine.fill bodies))) := by
  have hend := hs.endLine
  have hfit := hs.lines.endLine
  have hline : addLines (reader s).line 1 = (.ok (s.line + 1) : Checked Failure Nat) :=
    addLines_eq (show s.line + 1 < lineBound by omega)
  have hpending : s.endLine.pending = s.pending := by
    unfold LexState.endLine
    dsimp only
    split <;> rfl
  -- both readers leave out a newline behind a newline
  have htokens : (if ((reader s).tokens.back?.map (·.token) == none ||
      (reader s).tokens.back?.map (·.token) == some .newline) = true then reader s
      else (reader s).push s.gap .newline).tokens = s.endLine.tokens := by
    change (if (s.tokens.back?.map (·.token) == none ||
      s.tokens.back?.map (·.token) == some .newline) = true then reader s
      else (reader s).push s.gap .newline).tokens = _
    unfold LexState.endLine
    dsimp only
    split <;> rfl
  have hbodies : readBodies s.file text s.pending (pos + 1) (s.line + 1) s.endLine.tokens =
      safely _ := hpending ▸ readBodies_eq hpos hend.slots hend.lines hlast
  have hreader : ∀ bodies, reader (s.endLine.fill bodies) =
      ⟨s.file, (s.endLine.fill bodies).tokens, (s.endLine.fill bodies).line, []⟩ :=
    fun bodies => congrArg (Reader.mk · _ _ _) s.file_endLine
  rw [endLine, htokens, hline]
  simp only [hreader]
  dsimp only [bind, Except.bind, reader]
  rw [hbodies]
  change _ = safely ((LaneScript.readBodies s.file s.pending s.endLine.line _).map _)
  cases LaneScript.readBodies s.file s.pending s.endLine.line (text.drop (pos + 1)) <;> rfl

/-- Where the reading goes on behind a line end and its bodies, a line starts. -/
theorem behind_lineEnd {pending : List PendingHeredoc} {pos line : Nat} {bodies : HeredocBodies}
    (hdrop : text.drop pos = '\n' :: text.drop (pos + 1))
    (hbodies : LaneScript.readBodies file pending line (text.drop (pos + 1)) = .ok bodies)
    (hmore : pos + 1 + bodies.extent.length < text.length) :
    Gap.behind (text.take (pos + 1 + bodies.extent.length)) = .lineStart := by
  rw [take_add]
  rcases (bodiesRead_of_readBodies hbodies).closing with hnil | ⟨-, hgap⟩
  · rw [drop_drop, drop_eq_nil_iff] at hnil
    omega
  · exact Gap.behind_append_lineStart (behind_line hdrop) hgap

/-- The reading of a buffer from a position on is that of the text that remains there.  What stands
before the position is what the state remembers, where there is still text. -/
theorem scan_eq {rounds pos last : Nat} {s : LexState} (hrounds : text.length - pos < rounds)
    (hpos : pos ≤ text.length) (hgap : pos < text.length → s.gap = .behind (text.take pos))
    (hs : s.Reading last (text.drop pos)) (hlast : last + 1 < lineBound) :
    scan text rounds pos (reader s) =
      safely ((LaneScript.scan s (text.drop pos)).map reader) := by
  induction rounds generalizing pos s with
  | zero => omega
  | succ rounds ih =>
    rw [scan]
    by_cases hlt : pos < text.length
    · have hchar := getElem?_eq_getElem hlt
      have hdrop := drop_eq_getElem_cons hlt
      generalize text[pos] = c at hchar hdrop
      have hfit : s.line + newlinesOf (text.drop pos) ≤ last := by
        rcases hs.lines with hnil | hfit
        · rw [hdrop] at hnil
          cases hnil
        · exact hfit
      -- behind an extent of the text the induction goes on
      have hnext : ∀ {extent : Extent} {s' : LexState}, extent.IsOf (text.drop pos) →
          s'.gap = .behind ((text.drop pos).take extent.length) →
          s'.Reading last ((text.drop pos).drop extent.length) →
          scan text rounds (pos + extent.length) (reader s') =
            safely ((LaneScript.scan s' ((text.drop (pos + 1)).drop (extent.length - 1))).map
              reader) := by
        intro extent s' hextent hgap' hs'
        have hpositive := hextent.length_pos
        have hle := hextent.length_le
        rw [drop_drop] at hs'
        rw [drop_of_isOf (hdrop ▸ hextent), ← hdrop, drop_drop]
        rw [← Gap.behind_take_add hpositive hle] at hgap'
        rw [length_drop] at hle
        exact ih (by omega) (by omega) (fun _ => hgap') hs'
      have hread := scans_nextStep s.context s.line c (text.drop (pos + 1))
      rw [← hdrop] at hread
      rw [if_neg (Nat.not_le_of_lt hlt), charAt_eq hchar, gapAt_eq hpos, ← hgap hlt]
      dsimp only [bind, Except.bind]
      have hbound : s.line + newlinesOf (text.drop pos) < lineBound := by omega
      have hmove : nextStep ⟨(reader s).tokens.back?.map (·.token), s.gap⟩ text pos
          (reader s).line c =
            safely ((LaneScript.nextStep s.context s.line c (text.drop (pos + 1))).map
              (moveAt pos s.line)) := nextStep_eq s.context hchar hbound
      rw [hmove, hdrop, LaneScript.scan]
      cases hstep : LaneScript.nextStep s.context s.line c (text.drop (pos + 1)) with
      | error fault => rfl
      | ok step =>
        rw [hstep] at hread
        cases step with
        | stop => rfl
        | skip extent =>
          rw [← hdrop]
          exact hnext hread.1 rfl (hs.skip hread.1)
        | lexeme lexeme => exact hnext hread.extent hread.gap.symm (hs.take hread)
        | heredoc opener length => exact hnext hread.1 hread.2.1.symm (hs.openHeredoc hread.1)
        | lineEnd =>
          rw [hdrop] at hread hs
          cases Option.some.inj hread
          dsimp only [Except.map, safely_ok, onLine, Except.mapError, moveAt]
          rw [endLine_eq hlt hs hlast]
          cases hbodies : LaneScript.readBodies s.file s.pending (s.line + 1)
              (text.drop (pos + 1)) with
          | error failure => rfl
          | ok bodies =>
            have hread := bodiesRead_of_readBodies hbodies
            have hs' := hs.fill hread
            -- a body that is closed by the end of the text would lead one behind it
            rw [drop_drop, ← drop_min_length] at hs'
            have hstart : min (pos + 1 + bodies.extent.length) text.length < text.length →
                Gap.lineStart =
                  .behind (text.take (min (pos + 1 + bodies.extent.length) text.length)) := by
              intro hmore
              rw [Nat.min_eq_left (by omega), behind_lineEnd hdrop hbodies (by omega)]
            have hrest := ih (by omega) (Nat.min_le_right _ _) hstart hs'
            rw [drop_min_length, ← drop_drop] at hrest
            exact hrest
    · have hle := Nat.le_of_not_lt hlt
      rw [if_pos hle, drop_eq_nil_of_le hle, LaneScript.scan]
      rfl

/-- The tokens of a buffer are those of the text, if its lines can be counted. -/
theorem lexFrom_eq {line : Nat} {source : String}
    (hlines : line + newlinesOf source.toList + 1 < lineBound) :
    lexFrom file line source = safely (LaneScript.lexFrom file line source) := by
  have hscan : scan source.toList (source.toList.length + 1) 0 (reader (.start file line)) = _ :=
    scan_eq (Nat.lt_succ_self _) (Nat.zero_le _) (fun _ => rfl) (.start line source.toList) hlines
  unfold lexFrom LaneScript.lexFrom
  change (scan source.toList (source.toList.length + 1) 0 (reader (.start file line)) >>= _) = _
  rw [hscan, drop_zero]
  cases LaneScript.scan (.start file line) source.toList with
  | error failure => rfl
  | ok s =>
    dsimp only [Except.map, safely_ok, bind, Except.bind, reader]
    cases s.pending <;> rfl

end LaneScript.Positions
