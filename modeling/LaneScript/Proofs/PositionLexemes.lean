import LaneScript.Proofs.Positions

/-!
# Lexemes by positions

The lexemes of a buffer, each from the position where it starts.  A lexeme is found with the
position and the line behind it (`Placed`), where `Lexeme` counts its characters and line ends.

`nextStep_eq` says that a step at a position of the buffer finds what a step finds in the text that
remains there, and is never out of range.
-/

namespace LaneScript.Positions

open Literal
open Text (isBlank isNameChar isNameStart isUppercase)
open List

variable {text : List Char} {pos : Nat}

/-- A token, and the position and the line behind it. -/
structure Placed where
  token : Token
  pos : Nat
  line : Nat
  deriving DecidableEq, Repr

/-- The lexeme, if it starts at the position and the line. -/
def place (pos line : Nat) (lexeme : Lexeme) : Placed :=
  ⟨lexeme.token, pos + lexeme.extent.length, line + lexeme.extent.newlines⟩

theorem place_onLine (pos line : Nat) (token : Token) (length : Nat) :
    place pos line (.onLine token length) = ⟨token, pos + length, line⟩ := rfl

/-! ### Strings and lists of words -/

/-- A literal whose body starts at the position, up to the character that closes it. -/
def closedBy (text : List Char) (close : Char) (interpolated : Bool)
    (token : List StringPart → Token) (pos line : Nat) : Checked Fault Placed := do
  let rest ← slice text pos text.length
  let (pieces, length, newlines) ←
    scanPieces rest (some close) interpolated line (rest.length + 1) 0 0
  return ⟨token (joinPieces pieces), pos + length, ← addLines line newlines⟩

/-- The position of the character that closes a list of words, and its line. -/
def wordsEnd (text : List Char) (close : Char) (rounds pos line : Nat) :
    Checked Fault (Nat × Nat) :=
  match rounds with
  | 0 => .error .breach
  | rounds + 1 =>
    match text[pos]? with
    | none => .ok (pos, line)
    | some c =>
      if c != close then do wordsEnd text close rounds (pos + 1) (← addLines line (newlinesOf [c]))
      else .ok (pos, line)

/-- A list of words whose first character is at the position. -/
def wordList (text : List Char) (symbols : Bool) (close : Char) (pos line : Nat) :
    Checked Fault Placed := do
  let (last, lastLine) ← wordsEnd text close (text.length + 1) pos line
  if text[last]? = none then .error (.fault .unterminatedWordList)
  else
    let body ← slice text pos last
    return ⟨.words symbols ((Text.words body).map String.ofList), last + 1, lastLine⟩

theorem closedBy_eq (close : Char) (interpolated : Bool) (token : List StringPart → Token)
    {pos line : Nat} (opening : Nat) (hpos : pos + opening ≤ text.length)
    (hlines : line + newlinesOf (text.drop (pos + opening)) < lineBound) :
    closedBy text close interpolated token (pos + opening) line =
      safely ((Lexeme.closedBy close interpolated token line opening
        (text.drop (pos + opening))).map (place pos line)) := by
  have hbody := scans_scanPieces (some close) interpolated line (text.drop (pos + opening))
  rw [closedBy, slice_to_end hpos]
  dsimp only [bind, Except.bind]
  rw [scanPieces_eq _ _ (by omega) (by simpa using hlines)]
  unfold Lexeme.closedBy scanBody
  rw [Nat.add_zero, drop_zero]
  -- the scanned pieces say how many lines are added
  cases hfound : Literal.scanPieces (some close) interpolated line (text.drop (pos + opening)) with
  | error fault => rfl
  | ok found =>
    rw [hfound] at hbody
    have hnewlines := newlines_le_of_counts hbody.counts
    dsimp only [Except.map, safely_ok, piecesAt, bind, Except.bind]
    rw [addLines_eq (by omega)]
    simp only [place, pure, Except.pure, Nat.zero_add, Nat.add_assoc]

/-- The rounds go on to the closing character, and count the lines before it. -/
theorem wordsEnd_eq (close : Char) {rounds pos line : Nat} (hrounds : text.length - pos < rounds)
    (hlines : line + newlinesOf (text.drop pos) < lineBound) :
    wordsEnd text close rounds pos line =
      .ok (pos + ((text.drop pos).takeWhile (· != close)).length,
        line + newlinesOf ((text.drop pos).takeWhile (· != close))) := by
  induction rounds generalizing pos line with
  | zero => omega
  | succ rounds ih =>
    rw [wordsEnd]
    -- a round for each character, and one at the end of the text
    by_cases hpos : pos < text.length
    · have hdrop := drop_eq_getElem_cons hpos
      rw [hdrop, newlinesOf_cons] at hlines
      rw [getElem?_eq_getElem hpos, hdrop]
      dsimp only
      cases hclose : text[pos] != close with
      | true =>
        rw [if_pos rfl, addLines_eq (by omega),
          takeWhile_cons_of_pos (p := (· != close)) hclose]
        dsimp only [bind, Except.bind]
        rw [ih (by omega) (by omega), length_cons,
          newlinesOf_cons text[pos] ((text.drop (pos + 1)).takeWhile _)]
        simp only [Nat.add_assoc, Nat.add_comm 1]
      | false =>
        rw [if_neg Bool.false_ne_true,
          takeWhile_cons_of_neg (p := (· != close)) (ne_true_of_eq_false hclose)]
        rfl
    · have hle := Nat.le_of_not_lt hpos
      rw [getElem?_eq_none hle, drop_eq_nil_of_le hle]
      rfl

theorem wordList_eq (symbols : Bool) (close : Char) {pos line : Nat} (opening : Nat)
    (hpos : pos + opening ≤ text.length)
    (hlines : line + newlinesOf (text.drop (pos + opening)) < lineBound) :
    wordList text symbols close (pos + opening) line =
      safely ((Lexeme.wordList symbols close opening (text.drop (pos + opening))).map
        (place pos line)) := by
  have hslice : slice text (pos + opening) _ = (.ok _ : Checked Fault _) :=
    slice_eq hpos (List.takeWhile_prefix (· != close))
  rw [wordList, wordsEnd_eq close (by omega) hlines, Lexeme.wordList]
  dsimp only [bind, Except.bind]
  rw [hslice]
  generalize hbody : (text.drop (pos + opening)).takeWhile (· != close) = body
  -- the list is not closed if it goes on to the end of the buffer
  refine ite_eq_safely_map ?_ (fun _ => rfl) fun _ => ?_
  · rw [List.getElem?_eq_none_iff, length_drop]
    omega
  · simp only [Except.map, safely_ok, place, pure, Except.pure, Nat.add_assoc]

/-! ### Regular expressions -/

/-- The position of the slash that closes a regular expression. -/
def regexEnd (text : List Char) (rounds pos : Nat) : Checked Fault Nat :=
  match rounds with
  | 0 => .error .breach
  | rounds + 1 =>
    match text[pos]? with
    | none => .error (.fault .unterminatedRegex)
    | some c =>
      if c == '\\' then regexEnd text rounds (pos + 2)
      else if c == '/' then .ok pos
      else if c == '\n' then .error (.fault .unterminatedRegex)
      else regexEnd text rounds (pos + 1)

/-- A character behind a regular expression that changes its meaning. -/
def isRegexFlag (c : Char) : Bool := "imxo".toList.contains c

/-- The regular expression whose opening slash is at the position. -/
def regex (text : List Char) (pos line : Nat) : Checked Fault Placed := do
  let last ← regexEnd text (text.length + 1) (pos + 1)
  let source ← slice text (pos + 1) last
  let flagsEnd := runWhile isRegexFlag text (last + 1)
  let flags ← slice text (last + 1) flagsEnd
  return ⟨.regex (String.ofList source) (String.ofList flags), flagsEnd, line⟩

/-- The rounds go on to the slash, past what is escaped. -/
theorem regexEnd_eq {rounds pos : Nat} (hrounds : text.length - pos < rounds) :
    regexEnd text rounds pos =
      match Lexeme.regexLength? (text.drop pos) with
      | none => .error (.fault .unterminatedRegex)
      | some length => .ok (pos + length) := by
  induction rounds generalizing pos with
  | zero => omega
  | succ rounds ih =>
    rw [regexEnd]
    -- a round for each character, and one at the end of the text
    by_cases hpos : pos < text.length
    · have hdrop := drop_eq_getElem_cons hpos
      rw [getElem?_eq_getElem hpos, hdrop, regexLength?_cons]
      dsimp only
      split
      · rw [ih (by omega), drop_drop]
        cases Lexeme.regexLength? (text.drop (pos + 2)) with
        | none => rfl
        | some length => simp only [Option.map, Nat.add_assoc, Nat.add_comm 2]
      · split
        · rfl
        · split
          · rfl
          · rw [ih (by omega)]
            cases Lexeme.regexLength? (text.drop (pos + 1)) with
            | none => rfl
            | some length => simp only [Option.map, Nat.add_assoc, Nat.add_comm 1]
    · have hle := Nat.le_of_not_lt hpos
      rw [getElem?_eq_none hle, drop_eq_nil_of_le hle]
      rfl

/-! ### Names -/

/-- The word, constant or label at the position. -/
def name (context : Context) (text : List Char) (pos line : Nat) : Checked Fault Placed := do
  let stemEnd := runWhile isNameChar text pos
  let stem ← slice text pos stemEnd
  let mark := Lexeme.nameMark (text.drop stemEnd)
  let word := stem ++ mark
  let last := stemEnd + mark.length
  if !context.afterDot && Lexeme.startsWithColon (text.drop last) && mark != ['?'] then
    return ⟨.label (String.ofList word), last + 1, line⟩
  else if (word.take 1).any isUppercase then return ⟨.const (String.ofList word), last, line⟩
  else return ⟨.word (String.ofList word), last, line⟩

/-- The variable whose first `@` is at the position. -/
def atVariable (text : List Char) (pos line : Nat) : Checked Fault Placed := do
  let (sigil, mark) : Sigil × Nat :=
    if text[pos + 1]? == some '@' then (.classLevel, 1) else (.instanceLevel, 0)
  let first := pos + 1 + mark
  let last := runWhile isNameChar text first
  let name ← slice text first last
  if name.isEmpty then .error (.fault (.missingName '@'))
  else return ⟨.var sigil (String.ofList name), last, line⟩

/-- The global variable whose `$` is at the position. -/
def globalVariable (text : List Char) (pos line : Nat) : Checked Fault Placed := do
  let stemEnd := runWhile isNameChar text (pos + 1)
  let stem ← slice text (pos + 1) stemEnd
  -- one other character is a name too
  let last := if stem.isEmpty && (text[pos + 1]?).any (!isBlank ·) then stemEnd + 1 else stemEnd
  let name ← slice text (pos + 1) last
  if name.isEmpty then .error (.fault (.missingName '$'))
  else return ⟨.var .global (String.ofList name), last, line⟩

/-- A name at a position is that of the text from there. -/
theorem name_eq (context : Context) (line : Nat) (hpos : pos ≤ text.length) :
    name context text pos line = .ok (place pos line (Lexeme.name context (text.drop pos))) := by
  rw [name, slice_runWhile isNameChar hpos, runWhile_eq, Lexeme.name]
  dsimp only [bind, Except.bind]
  simp only [drop_drop, length_append, ← Nat.add_assoc pos]
  generalize (text.drop pos).takeWhile isNameChar = stem
  generalize Lexeme.nameMark (text.drop (pos + stem.length)) = mark
  split
  · simp only [place_onLine, pure, Except.pure, Nat.add_assoc]
  · split
    · simp only [place_onLine, pure, Except.pure, Nat.add_assoc]
    · simp only [place_onLine, pure, Except.pure, Nat.add_assoc]

theorem atVariable_eq (line : Nat) (hpos : pos + 1 ≤ text.length) :
    atVariable text pos line =
      safely ((Lexeme.atVariable (text.drop (pos + 1))).map (place pos line)) := by
  have hfirst : pos + 1 + (if text[pos + 1]? == some '@' then (Sigil.classLevel, 1)
      else (.instanceLevel, 0)).2 ≤ text.length := by
    split
    · next h => exact (List.getElem?_eq_some_iff.1 (eq_of_beq h)).1
    · exact hpos
  rw [atVariable, Lexeme.atVariable, head?_drop]
  generalize (if text[pos + 1]? == some '@' then (Sigil.classLevel, 1)
      else (Sigil.instanceLevel, 0)) = found at *
  obtain ⟨sigil, mark⟩ := found
  dsimp only
  rw [slice_runWhile isNameChar hfirst, runWhile_eq, drop_drop]
  refine ite_eq_safely_map Iff.rfl (fun _ => rfl) fun _ => ?_
  simp only [Except.map, safely_ok, place_onLine, pure, Except.pure, Nat.add_assoc]

/-- Without a name, a character that is not blank is the name of a global variable. -/
theorem globalName_eq (rest : List Char) (first : Nat) :
    let stem := rest.takeWhile isNameChar
    let name := if stem.isEmpty then (rest.take 1).filter (!isBlank ·) else stem
    name <+: rest ∧
      (if stem.isEmpty && rest.head?.any (!isBlank ·) then first + stem.length + 1
        else first + stem.length) = first + name.length := by
  intro stem name
  have hpart : stem <+: rest := takeWhile_prefix isNameChar
  cases hstem : stem with
  | cons c more => simp_all [name]
  | nil =>
    cases rest with
    | nil => simp [name, hstem]
    | cons c rest => cases hblank : isBlank c <;> simp [name, hstem, hblank]

theorem globalVariable_eq (line : Nat) (hpos : pos + 1 ≤ text.length) :
    globalVariable text pos line =
      safely ((Lexeme.globalVariable (text.drop (pos + 1))).map (place pos line)) := by
  obtain ⟨hpart, hlast⟩ := globalName_eq (text.drop (pos + 1)) (pos + 1)
  rw [globalVariable, slice_runWhile isNameChar hpos, runWhile_eq, Lexeme.globalVariable,
    ← head?_drop]
  dsimp only [bind, Except.bind]
  rw [hlast, slice_eq hpos hpart]
  refine ite_eq_safely_map Iff.rfl (fun _ => rfl) fun _ => ?_
  simp only [Except.map, safely_ok, place_onLine, pure, Except.pure, Nat.add_assoc]

theorem regex_eq (line : Nat) :
    regex text pos line = safely ((Lexeme.regex (text.drop (pos + 1))).map (place pos line)) := by
  rw [regex, regexEnd_eq (by omega), Lexeme.regex]
  cases hlength : Lexeme.regexLength? (text.drop (pos + 1)) with
  | none => rfl
  | some length =>
    -- an escape may lead beyond the buffer, but the slash that is found stands in it
    obtain ⟨hlt, -⟩ := List.getElem?_eq_some_iff.1 (getElem?_regexLength? hlength)
    rw [length_drop] at hlt
    have hflags : pos + 1 + length + 1 ≤ text.length := by omega
    dsimp only [bind, Except.bind]
    rw [slice_take (Nat.le_of_succ_le hflags), slice_runWhile isRegexFlag hflags, runWhile_eq,
      drop_drop, ← Nat.add_assoc (pos + 1)]
    generalize hsame : (text.drop (pos + 1 + length + 1)).takeWhile isRegexFlag = flags
    have hlast : pos + 1 + length + 1 + flags.length = pos + (length + 2 + flags.length) := by
      omega
    rw [hlast, ← hsame]
    rfl

/-! ### Numerals -/

/-- The position behind a fraction, or the given one where there is none. -/
def fractionEnd (text : List Char) (pos : Nat) : Nat :=
  if text[pos]? == some '.' && (text[pos + 1]?).any Char.isDigit then
    runWhile (isNumeralChar 10) text (pos + 1)
  else pos

/-- The sign of an exponent. -/
def isSign (c : Char) : Bool := c == '+' || c == '-'

/-- The position behind an exponent, or the given one where there is none. -/
def exponentEnd (text : List Char) (pos : Nat) : Nat :=
  if (text[pos]?).any (fun c => c == 'e' || c == 'E') &&
      ((text[pos + 1]?).any Char.isDigit ||
        (text[pos + 1]?).any isSign && (text[pos + 2]?).any Char.isDigit) then
    runWhile Char.isDigit text (pos + 2)
  else pos

/-- The numeral at the position. -/
def numeral (text : List Char) (pos line : Nat) : Checked Fault Placed :=
  match radixMark? (text.drop pos) with
  | some (radix, mark) => do
    let last := runWhile (isNumeralChar radix) text (pos + mark)
    let body ← slice text (pos + mark) last
    let written ← slice text pos last
    if (withoutUnderscores body).isEmpty then
      .error (.fault (.invalidNumber (String.ofList (withoutUnderscores written))))
    else
      return ⟨integerToken radix (withoutUnderscores body) (withoutUnderscores written), last, line⟩
  | none => do
    let wholeEnd := runWhile (isNumeralChar 10) text pos
    let fracEnd := fractionEnd text wholeEnd
    let last := exponentEnd text fracEnd
    let digits := withoutUnderscores (← slice text pos wholeEnd)
    let frac ← slice text wholeEnd fracEnd
    let exponent ← slice text fracEnd last
    if frac.isEmpty && exponent.isEmpty then return ⟨integerToken 10 digits digits, last, line⟩
    else return ⟨.float (floatValue digits (withoutUnderscores frac) exponent), last, line⟩

theorem fraction_cons (c : Char) (rest : List Char) :
    fraction (c :: rest) =
      if c == '.' && rest.head?.any Char.isDigit then c :: rest.takeWhile (isNumeralChar 10)
      else [] := by
  cases rest with
  | nil => simp [fraction]
  | cons d rest =>
    by_cases hpoint : c = '.'
    · subst hpoint
      simp [fraction]
    · rw [if_neg (by simp [hpoint])]
      simp [fraction, hpoint]

theorem exponentSign_cons (c : Char) (rest : List Char) :
    exponentSign (c :: rest) = if isSign c then [c] else [] := by
  unfold exponentSign
  split
  · next h => cases h; rfl
  · next h => cases h; rfl
  · next hplus hminus =>
    rw [if_neg]
    rw [isSign, Bool.or_eq_true, beq_iff_eq, beq_iff_eq]
    rintro (rfl | rfl)
    · exact hplus _ rfl
    · exact hminus _ rfl

theorem isDigit_of_isSign {c : Char} (h : isSign c = true) : c.isDigit = false := by
  rw [isSign, Bool.or_eq_true, beq_iff_eq, beq_iff_eq] at h
  rcases h with rfl | rfl <;> rfl

theorem exponentPart_cons (c : Char) (rest : List Char) :
    exponentPart (c :: rest) =
      if (c == 'e' || c == 'E') && (rest.head?.any Char.isDigit ||
          rest.head?.any isSign && (rest.drop 1).head?.any Char.isDigit) then
        c :: rest.take 1 ++ (rest.drop 1).takeWhile Char.isDigit
      else [] := by
  rw [exponentPart]
  cases hmark : c == 'e' || c == 'E' with
  | false => rfl
  | true =>
    dsimp only
    cases rest with
    | nil => rfl
    | cons d rest =>
      rw [exponentSign_cons]
      cases hsign : isSign d with
      | true =>
        cases rest with
        | nil => simp [hsign, isDigit_of_isSign hsign]
        | cons e rest => cases hdigit : e.isDigit <;> simp [hsign, hdigit, isDigit_of_isSign hsign]
      | false => cases hdigit : d.isDigit <;> simp [hsign, hdigit]

theorem fractionEnd_eq (text : List Char) (pos : Nat) :
    fractionEnd text pos = pos + (fraction (text.drop pos)).length := by
  rw [fractionEnd, runWhile_eq, ← head?_drop, ← head?_drop, ← drop_drop]
  cases text.drop pos with
  | nil => rfl
  | cons c rest =>
    rw [fraction_cons, head?_cons, drop_succ_cons, drop_zero, Option.some_beq_some]
    split
    · rw [length_cons]
      omega
    · rfl

theorem exponentEnd_eq (text : List Char) (pos : Nat) :
    exponentEnd text pos = pos + (exponentPart (text.drop pos)).length := by
  have hone : text.drop (pos + 1) = (text.drop pos).drop 1 := drop_drop.symm
  have htwo : text.drop (pos + 2) = (text.drop pos).drop 2 := drop_drop.symm
  rw [exponentEnd, runWhile_eq, ← head?_drop, ← head?_drop, ← head?_drop, hone, htwo]
  cases text.drop pos with
  | nil => rfl
  | cons c rest =>
    rw [exponentPart_cons]
    cases rest with
    | nil =>
      simp
    | cons d rest =>
      simp only [drop_succ_cons, drop_zero, head?_cons, Option.any_some]
      split
      · simp
        omega
      · rfl

/-- A numeral at a position is that of the text from there. -/
theorem numeral_eq (line : Nat) (hpos : pos ≤ text.length) :
    numeral text pos line =
      safely ((scanNumeral (text.drop pos)).map fun (token, length) =>
        place pos line (.onLine token length)) := by
  rw [numeral, scanNumeral]
  cases hmark : radixMark? (text.drop pos) with
  | some found =>
    obtain ⟨radix, mark⟩ := found
    have hmarkLe := (radixMark?_eq_some hmark).2.1
    rw [length_drop] at hmarkLe
    have hfirst : pos + mark ≤ text.length := by omega
    have hlast := runWhile_le (isNumeralChar radix) hfirst
    rw [runWhile_eq, Nat.add_assoc] at hlast
    dsimp only [bind, Except.bind]
    rw [slice_runWhile _ hfirst, runWhile_eq, drop_drop, Nat.add_assoc, slice_take hlast]
    exact ite_eq_safely_map Iff.rfl (fun _ => rfl) fun _ => rfl
  | none =>
    have hwhole := runWhile_le (isNumeralChar 10) hpos
    rw [runWhile_eq] at hwhole
    have hfrac := prefix_fraction
      (text.drop (pos + ((text.drop pos).takeWhile (isNumeralChar 10)).length))
    dsimp only [bind, Except.bind]
    rw [exponentEnd_eq, fractionEnd_eq, slice_runWhile _ hpos, runWhile_eq]
    simp only [drop_drop, ← Nat.add_assoc pos]
    -- the whole part, the fraction and the exponent lie one behind another
    generalize (text.drop pos).takeWhile (isNumeralChar 10) = whole at *
    have hfracLe := hfrac.length_le
    rw [length_drop] at hfracLe
    rw [slice_eq hwhole hfrac]
    generalize fraction (text.drop (pos + whole.length)) = frac at *
    have hexp := prefix_exponentPart (text.drop (pos + whole.length + frac.length))
    rw [slice_eq (by omega) hexp]
    generalize exponentPart (text.drop (pos + whole.length + frac.length)) = exponent
    refine ite_eq_safely_map Iff.rfl (fun _ => ?_) fun _ => ?_
    · simp only [Except.map, safely_ok, place_onLine, pure, Except.pure, Nat.add_assoc]
    · simp only [Except.map, safely_ok, place_onLine, pure, Except.pure, Nat.add_assoc]

/-! ### Symbols and `%` literals -/

/-- The symbol whose colon is at the position. -/
def symbol? (context : Context) (text : List Char) (pos line : Nat) :
    Checked Fault (Option Placed) :=
  if text[pos + 1]? == some ':' || !context.allowsSymbol then .ok none
  else match text[pos + 1]? with
    | none => .ok none
    | some c =>
      if c == '"' then
        let token parts := Token.symbol (String.join (parts.map Lexeme.symbolText))
        (closedBy text '"' true token (pos + 2) line).map some
      else if isNameStart c then do
        let stemEnd := runWhile isNameChar text (pos + 1)
        let stem ← slice text (pos + 1) stemEnd
        let mark := Lexeme.symbolMark (text.drop stemEnd)
        return some ⟨.symbol (String.ofList (stem ++ mark)), stemEnd + mark.length, line⟩
      else if c == '[' && text[pos + 2]? == some ']' then .ok (some ⟨.symbol "[]", pos + 3, line⟩)
      else .ok none

/-- The `%` literal whose mark is at the position. -/
def percent? (text : List Char) (pos line : Nat) : Checked Fault (Option Placed) :=
  match Lexeme.percentHead? (text.drop (pos + 1)) with
  | none => .ok none
  | some (kind, opener, head) =>
    let close := Lexeme.closerOf opener
    let first := pos + (1 + head)
    if kind == 'w' || kind == 'W' then (wordList text false close first line).map some
    else if kind == 'i' || kind == 'I' then (wordList text true close first line).map some
    else (closedBy text close (kind == 'Q') .str first line).map some

theorem map_some_eq_safely {attempt : Checked Fault Placed} {found : Except Fault Lexeme}
    {pos line : Nat} (h : attempt = safely (found.map (place pos line))) :
    attempt.map some = safely ((found.map some).map (Option.map (place pos line))) := by
  rw [h]
  cases found <;> rfl

/-- A symbol at a position is that of the text behind the colon. -/
theorem symbol?_eq (context : Context) {pos line : Nat}
    (hlines : line + newlinesOf (text.drop (pos + 2)) < lineBound) :
    symbol? context text pos line =
      safely ((Lexeme.symbol? context line (text.drop (pos + 1))).map
        (Option.map (place pos line))) := by
  rw [symbol?, Lexeme.symbol?, head?_drop]
  refine ite_eq_safely_map Iff.rfl (fun _ => rfl) fun _ => ?_
  cases hnext : text[pos + 1]? with
  | none => rfl
  | some c =>
    have hlt := (List.getElem?_eq_some_iff.1 hnext).1
    dsimp only
    refine ite_eq_safely_map Iff.rfl (fun _ => ?_) fun _ => ite_eq_safely_map Iff.rfl
      (fun _ => ?_) fun _ => ite_eq_safely_map ?_ (fun _ => rfl) fun _ => rfl
    · rw [drop_drop]
      exact map_some_eq_safely (closedBy_eq '"' true _ 2 hlt hlines)
    · rw [slice_runWhile isNameChar (Nat.le_of_lt hlt), runWhile_eq, drop_drop]
      dsimp only [bind, Except.bind]
      simp only [Except.map, safely_ok, place_onLine, pure, Except.pure, Option.map_some,
        length_append, Nat.add_assoc]
    · rw [drop_eq_cons hnext, ← head?_drop]
      cases text.drop (pos + 2) <;> simp

theorem percentHead?_le {rest : List Char} {kind opener : Char} {head : Nat}
    (h : Lexeme.percentHead? rest = some (kind, opener, head)) : head ≤ rest.length := by
  unfold Lexeme.percentHead? at h
  split at h
  next rest =>
    split at h
    · cases rest with
      | nil => cases h
      | cons c rest =>
        dsimp only [head?_cons] at h
        split at h
        · cases h
          simp
        · cases h
    · split at h
      · cases h
        simp
      · cases h
  · cases h

theorem percent?_eq {pos line : Nat} (hpos : pos + 1 ≤ text.length)
    (hlines : line + newlinesOf (text.drop (pos + 1)) < lineBound) :
    percent? text pos line =
      safely ((Lexeme.percent? line (text.drop (pos + 1))).map (Option.map (place pos line))) := by
  rw [percent?, Lexeme.percent?]
  cases hhead : Lexeme.percentHead? (text.drop (pos + 1)) with
  | none => rfl
  | some found =>
    obtain ⟨kind, opener, head⟩ := found
    have hle := percentHead?_le hhead
    have hrest := newlinesOf_drop_add_le (pos + 1) head text
    have hsum : pos + 1 + head = pos + (1 + head) := Nat.add_assoc pos 1 head
    rw [hsum] at hrest
    rw [length_drop] at hle
    dsimp only
    rw [drop_drop, hsum]
    have hfirst : pos + (1 + head) ≤ text.length := by omega
    refine ite_eq_safely_map Iff.rfl (fun _ => map_some_eq_safely ?_) fun _ =>
      ite_eq_safely_map Iff.rfl (fun _ => map_some_eq_safely ?_) fun _ => map_some_eq_safely ?_
    · exact wordList_eq false _ (1 + head) hfirst (by omega)
    · exact wordList_eq true _ (1 + head) hfirst (by omega)
    · exact closedBy_eq _ _ .str (1 + head) hfirst (by omega)

/-! ### Openers of heredocs -/

/-- The opener of a heredoc whose first mark is at the position, and the position behind it. -/
def heredocOpener? (text : List Char) (pos : Nat) :
    Checked Fault (Option (HeredocOpener × Nat)) := do
  let mark := (text[pos + 2]?.toList).filter fun c => c == '~' || c == '-'
  let quote := (text[pos + 2 + mark.length]?.toList).filter fun c =>
    c == '\'' || c == '"' || c == '\x60'
  let first := pos + 2 + mark.length + quote.length
  let last := runWhile isNameChar text first
  let id ← slice text first last
  let closed := quote.all (some · == text[last]?)
  let bare := mark.isEmpty && quote.isEmpty
  if id.isEmpty || !closed || (bare && !(id.take 1).all isUppercase) then return none
  else
    return some (⟨id, !mark.isEmpty, mark == ['~'], quote == ['\'']⟩, last + quote.length)

theorem heredocOpener?_eq (hpos : pos + 2 ≤ text.length) :
    heredocOpener? text pos =
      .ok ((Literal.heredocOpener? (text.drop (pos + 2))).map fun (opener, length) =>
        (opener, pos + (2 + length))) := by
  rw [heredocOpener?, Literal.heredocOpener?]
  have hmark := (prefix_filter (fun c => c == '~' || c == '-') (text.drop (pos + 2))).length_le
  simp only [take_one, head?_drop, drop_drop] at hmark ⊢
  generalize text[pos + 2]?.toList.filter (fun c => c == '~' || c == '-') = mark at *
  have hquote := (prefix_filter (fun c => c == '\'' || c == '"' || c == '\x60')
    (text.drop (pos + 2 + mark.length))).length_le
  -- a quote is one character, which the character behind the name has to repeat
  have hone : ((text[pos + 2 + mark.length]?).toList.filter
      fun c => c == '\'' || c == '"' || c == '\x60').length ≤ 1 := by
    refine Nat.le_trans (length_filter_le _ _) ?_
    cases text[pos + 2 + mark.length]? <;> simp
  rw [take_one, head?_drop] at hquote
  generalize (text[pos + 2 + mark.length]?).toList.filter
    (fun c => c == '\'' || c == '"' || c == '\x60') = quote at *
  rw [length_drop] at hmark hquote
  rw [slice_runWhile isNameChar (by omega), runWhile_eq]
  generalize (text.drop (pos + 2 + mark.length + quote.length)).takeWhile isNameChar = id
  have hlast : pos + 2 + mark.length + quote.length + id.length + quote.length =
      pos + (2 + (mark.length + id.length + 2 * quote.length)) := by omega
  have hclosed : quote.all (some · == text[pos + 2 + mark.length + quote.length + id.length]?) =
      ((text.drop (pos + 2 + mark.length + (quote.length + id.length))).take quote.length ==
        quote) := by
    rw [Nat.add_assoc _ quote.length, ← head?_drop]
    match quote, hone with
    | [], _ => rfl
    | [q], _ => cases text.drop (pos + 2 + mark.length + ([q].length + id.length)) <;> grind
  dsimp only [bind, Except.bind]
  rw [hclosed, hlast]
  split
  · rfl
  · rfl

/-! ### Block comments -/

/-- The position behind the block comment at the given one, and the line of it. -/
def blockComment (text : List Char) (rounds pos line : Nat) : Checked Fault (Nat × Nat) :=
  match rounds with
  | 0 => .error .breach
  | rounds + 1 =>
    let lineEnd := runWhile (· != '\n') text pos
    match text[lineEnd]? with
    | none => .error (.fault .unterminatedComment)
    | some _ => do
      let line ← addLines line 1
      if "=end".toList.isPrefixOf (text.drop (lineEnd + 1)) then
        return (runWhile (· != '\n') text (lineEnd + 1), line)
      else blockComment text rounds (lineEnd + 1) line

/-- A line runs to a line end, or to the end of the buffer. -/
theorem drop_lineEnd (text : List Char) (pos : Nat) :
    text.drop (runWhile (· != '\n') text pos) = [] ∨
      text.drop (runWhile (· != '\n') text pos) =
          '\n' :: text.drop (runWhile (· != '\n') text pos + 1) ∧
        newlinesOf (text.drop pos) =
          newlinesOf (text.drop (runWhile (· != '\n') text pos + 1)) + 1 := by
  have hsplit := newlinesOf_take_add_drop ((text.drop pos).takeWhile (· != '\n')).length
    (text.drop pos)
  rw [take_length_of_isPrefix (List.takeWhile_prefix _), newlinesOf_takeWhile] at hsplit
  rw [runWhile_eq]
  rcases drop_line (text.drop pos) with hend | ⟨rest, hend⟩
  · rw [drop_drop] at hend
    exact .inl hend
  · rw [hend, newlinesOf_lineEnd] at hsplit
    rw [drop_drop] at hend
    have hrest : text.drop (pos + ((text.drop pos).takeWhile (· != '\n')).length + 1) = rest := by
      rw [← drop_drop, hend]
      rfl
    rw [hend, hrest]
    exact .inr ⟨rfl, by omega⟩

/-- Line by line up to the end of the comment. -/
theorem blockComment_eq {rounds pos line : Nat} (hrounds : text.length - pos < rounds)
    (hlines : line + newlinesOf (text.drop pos) < lineBound) :
    blockComment text rounds pos line =
      match blockComment? (text.drop pos) with
      | none => .error (.fault .unterminatedComment)
      | some extent => .ok (pos + extent.length, line + extent.newlines) := by
  induction rounds generalizing pos line with
  | zero => omega
  | succ rounds ih =>
    have hline := runWhile_eq (· != '\n') text pos
    rw [blockComment, ← head?_drop]
    -- the line is the last one, or the comment may go on behind its end
    rcases drop_lineEnd text pos with hend | ⟨hend, hcount⟩
    · have hlast : (text.drop pos).drop ((text.drop pos).takeWhile (· != '\n')).length = [] := by
        rw [drop_drop, ← hline, hend]
      rw [hend, blockComment?_of_last_line hlast]
      rfl
    · have hrest : (text.drop pos).drop ((text.drop pos).takeWhile (· != '\n')).length =
          '\n' :: text.drop (runWhile (· != '\n') text pos + 1) := by
        rw [drop_drop, ← hline, hend]
      have hlt : runWhile (· != '\n') text pos < text.length := by
        refine Nat.lt_of_not_le fun hle => ?_
        rw [drop_eq_nil_of_le hle] at hend
        cases hend
      rw [hend, blockComment?_of_line hrest]
      dsimp only [head?_cons, bind, Except.bind]
      rw [addLines_eq (by omega)]
      dsimp only
      split
      · rw [runWhile_eq _ _ (_ + 1)]
        simp only [hline, Nat.add_assoc, pure, Except.pure]
      · rw [ih (by omega) (by omega)]
        cases blockComment? (text.drop (runWhile (· != '\n') text pos + 1)) with
        | none => rfl
        | some extent => simp only [hline, Option.map_some, Nat.add_assoc, Nat.add_comm 1]

/-! ### Steps -/

/-- What one step of the reading finds, with the position and the line behind it. -/
inductive Move where
  | skip (pos line : Nat)
  | lineEnd
  | lexeme (found : Placed)
  | heredoc (opener : HeredocOpener) (pos : Nat)
  | stop
  deriving DecidableEq, Repr

/-- The step, if it starts at the position and the line. -/
def moveAt (pos line : Nat) : Step → Move
  | .skip extent => .skip (pos + extent.length) (line + extent.newlines)
  | .lineEnd => .lineEnd
  | .lexeme lexeme => .lexeme (place pos line lexeme)
  | .heredoc opener length => .heredoc opener (pos + length)
  | .stop => .stop

/-- A lexeme that may be there, or else what `other` finds. -/
def orElse (attempt : Checked Fault (Option Placed)) (other : Unit → Checked Fault Move) :
    Checked Fault Move :=
  match attempt with
  | .error stop => .error stop
  | .ok (some found) => .ok (.lexeme found)
  | .ok none => other ()

/-- The mark or the operator at the position. -/
def markStep (text : List Char) (pos line : Nat) (c : Char) : Checked Fault Move :=
  match Lexeme.punctuation? c (text.drop (pos + 1)) with
  | some token => .ok (.lexeme ⟨token, pos + 1, line⟩)
  | none =>
    match Lexeme.operator? (text.drop pos) with
    | some lexeme => .ok (.lexeme (place pos line lexeme))
    | none => .error (.fault (.unexpectedChar c))

/-- The lexeme at the position, which starts with a character that is neither blank nor part of a
name or number. -/
def literalStep (context : Context) (text : List Char) (pos line : Nat) (c : Char) :
    Checked Fault Move :=
  if c == ':' then orElse (symbol? context text pos line) fun _ => markStep text pos line c
  else if c == '%' && context.allowsLiteral text[pos + 1]? then
    orElse (percent? text pos line) fun _ => markStep text pos line c
  else if c == '/' && context.allowsLiteral text[pos + 1]? then (regex text pos line).map .lexeme
  else if c == '<' && text[pos + 1]? == some '<' && context.allowsLiteral text[pos + 2]? then do
    match ← heredocOpener? text pos with
    | some (opener, last) => return .heredoc opener last
    | none => markStep text pos line c
  else markStep text pos line c

/-- The next step of the reading, at a position that holds `c`. -/
def nextStep (context : Context) (text : List Char) (pos line : Nat) (c : Char) :
    Checked Fault Move :=
  if context.gap == .lineStart && "=begin".toList.isPrefixOf (text.drop pos) then do
    let (last, lastLine) ← blockComment text (text.length + 1) pos line
    return .skip last lastLine
  else if context.gap == .lineStart && atEndMarker (text.drop pos) then .ok .stop
  else if c == '#' then .ok (.skip (runWhile (· != '\n') text pos) line)
  else if c == '\\' && text[pos + 1]? == some '\n' then do
    return .skip (pos + 2) (← addLines line 1)
  else if c == '\n' then .ok .lineEnd
  else if isBlank c then .ok (.skip (pos + 1) line)
  else if c == '"' then (closedBy text '"' true .str (pos + 1) line).map .lexeme
  else if c == '\'' then (closedBy text '\'' false .str (pos + 1) line).map .lexeme
  else if c == '\x60' then (closedBy text '\x60' true .command (pos + 1) line).map .lexeme
  else if c.isDigit then (numeral text pos line).map .lexeme
  else if c == '@' then (atVariable text pos line).map .lexeme
  else if c == '$' then (globalVariable text pos line).map .lexeme
  else if isNameStart c then (name context text pos line).map .lexeme
  else literalStep context text pos line c

theorem map_lexeme_eq_safely {attempt : Checked Fault Placed} {found : Except Fault Lexeme}
    {pos line : Nat} (h : attempt = safely (found.map (place pos line))) :
    attempt.map .lexeme = safely ((found.map .lexeme).map (moveAt pos line)) := by
  rw [h]
  cases found <;> rfl

theorem orElse_eq_safely {attempt : Checked Fault (Option Placed)}
    {found : Except Fault (Option Lexeme)} {other : Unit → Checked Fault Move}
    {other' : Unit → Except Fault Step} {pos line : Nat}
    (hfound : attempt = safely (found.map (Option.map (place pos line))))
    (hother : other () = safely ((other' ()).map (moveAt pos line))) :
    orElse attempt other = safely ((Step.orElse found other').map (moveAt pos line)) := by
  rw [hfound]
  match found with
  | .error fault => rfl
  | .ok (some lexeme) => rfl
  | .ok none => exact hother

section

variable {text : List Char} {pos line : Nat} {c : Char}

theorem markStep_eq (line : Nat) (h : text.drop pos = c :: text.drop (pos + 1)) :
    markStep text pos line c =
      safely ((LaneScript.markStep c (text.drop (pos + 1))).map (moveAt pos line)) := by
  rw [markStep, LaneScript.markStep, h]
  cases Lexeme.punctuation? c (text.drop (pos + 1)) with
  | some token => rfl
  | none => cases Lexeme.operator? (c :: text.drop (pos + 1)) <;> rfl

/-- The literals are tried in the same order. -/
theorem literalStep_eq (context : Context) (h : text[pos]? = some c)
    (hlines : line + newlinesOf (text.drop (pos + 1)) < lineBound) :
    literalStep context text pos line c =
      safely ((LaneScript.literalStep context line c (text.drop (pos + 1))).map
        (moveAt pos line)) := by
  have hlt := (List.getElem?_eq_some_iff.1 h).1
  have hmark := markStep_eq line (drop_eq_cons h)
  have hrest : newlinesOf (text.drop (pos + 2)) ≤ newlinesOf (text.drop (pos + 1)) :=
    newlinesOf_drop_add_le (pos + 1) 1 text
  rw [literalStep, LaneScript.literalStep, drop_drop, head?_drop, head?_drop]
  refine ite_eq_safely_map Iff.rfl (fun _ => ?_) fun _ => ite_eq_safely_map Iff.rfl (fun _ => ?_)
    fun _ => ite_eq_safely_map Iff.rfl (fun _ => ?_) fun _ => ite_eq_safely_map Iff.rfl
    (fun hangles => ?_) fun _ => hmark
  · exact orElse_eq_safely (symbol?_eq context (by omega)) hmark
  · exact orElse_eq_safely (percent?_eq hlt hlines) hmark
  · exact map_lexeme_eq_safely (regex_eq line)
  · simp only [Bool.and_eq_true, beq_iff_eq] at hangles
    have hsecond := (List.getElem?_eq_some_iff.1 hangles.1.2).1
    rw [heredocOpener?_eq hsecond]
    cases Literal.heredocOpener? (text.drop (pos + 1 + 1)) with
    | some found => rfl
    | none => exact hmark

/-- A step at a position finds what the step finds in the text that remains there. -/
theorem nextStep_eq (context : Context) (h : text[pos]? = some c)
    (hlines : line + newlinesOf (text.drop pos) < lineBound) :
    nextStep context text pos line c =
      safely ((LaneScript.nextStep context line c (text.drop (pos + 1))).map
        (moveAt pos line)) := by
  have hlt := (List.getElem?_eq_some_iff.1 h).1
  have hdrop := drop_eq_cons h
  have hrest := newlinesOf_drop_add_le pos 1 text
  have hlines' : line + newlinesOf (text.drop (pos + 1)) < lineBound := by omega
  have hquoted : ∀ (close : Char) (interpolated : Bool) (token : List StringPart → Token),
      (closedBy text close interpolated token (pos + 1) line).map Move.lexeme =
        safely (((Lexeme.closedBy close interpolated token line 1 (text.drop (pos + 1))).map
          Step.lexeme).map (moveAt pos line)) :=
    fun close interpolated token =>
      map_lexeme_eq_safely (closedBy_eq close interpolated token 1 hlt hlines')
  rw [nextStep, LaneScript.nextStep, ← hdrop, head?_drop]
  -- comments, the end of the script, line ends and blanks
  refine ite_eq_safely_map Iff.rfl (fun _ => ?_) fun _ => ite_eq_safely_map Iff.rfl (fun _ => rfl)
    fun _ => ite_eq_safely_map Iff.rfl (fun _ => ?_) fun _ => ite_eq_safely_map Iff.rfl
    (fun hjoin => ?_) fun _ => ite_eq_safely_map Iff.rfl (fun _ => rfl) fun _ =>
    ite_eq_safely_map Iff.rfl (fun _ => rfl) fun _ => ?_
  · rw [blockComment_eq (by omega) hlines]
    cases blockComment? (text.drop pos) <;> rfl
  · rw [runWhile_eq]
    rfl
  · simp only [Bool.and_eq_true, beq_iff_eq] at hjoin
    rw [drop_eq_cons hjoin.2, newlinesOf_lineEnd] at hlines'
    rw [addLines_eq (by omega)]
    rfl
  -- strings, numerals and variables
  refine ite_eq_safely_map Iff.rfl (fun _ => hquoted _ _ _) fun _ => ite_eq_safely_map Iff.rfl
    (fun _ => hquoted _ _ _) fun _ => ite_eq_safely_map Iff.rfl (fun _ => hquoted _ _ _) fun _ =>
    ite_eq_safely_map Iff.rfl (fun _ => ?_) fun _ => ite_eq_safely_map Iff.rfl (fun _ => ?_)
    fun _ => ite_eq_safely_map Iff.rfl (fun _ => ?_) fun _ => ite_eq_safely_map Iff.rfl
    (fun _ => ?_) fun _ => literalStep_eq context h hlines'
  · rw [numeral_eq line (Nat.le_of_lt hlt)]
    cases scanNumeral (text.drop pos) <;> rfl
  · exact map_lexeme_eq_safely (atVariable_eq line hlt)
  · exact map_lexeme_eq_safely (globalVariable_eq line hlt)
  · rw [name_eq context line (Nat.le_of_lt hlt)]
    rfl

end

end LaneScript.Positions
