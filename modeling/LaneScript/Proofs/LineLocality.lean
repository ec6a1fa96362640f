import LaneScript.Proofs.InterpolationEnd
import LaneScript.Proofs.LexerRounds
import LaneScript.Proofs.PositionLexemes
import Mathlib.Data.List.Find

/-!
# What the next line holds does not matter

What a step finds at a place of a text is found there too when the text goes on on another line.
A name, a number or a symbol ends at the end of its line whether or not this is the end of the text,
and the character behind an operator or a mark is looked at only for what a line end is not.  What
may reach over several lines is a literal between marks, a block comment or a join of two lines;
these are found in a text only when all of them is there.

So every function of the lexer is compared with itself on a longer text, from runs of characters up
to `keeps_nextStep`.  Most find the same in both.  Those that look for an end may fail on the
shorter one, and for these it is said that what is found is kept (`Keeps`).
-/

namespace LaneScript

open Literal Lexeme
open Text (isBlank isNameChar isNameStart isUppercase)
open List

variable {p : Char → Bool} {text : List Char}

/-- What the first finds, the second finds too. -/
def Keeps {ε α : Type} (result result' : Except ε α) : Prop :=
  ∀ a, result = .ok a → result' = .ok a

namespace Keeps

variable {ε α β : Type} {result result' : Except ε α}

theorem of_eq (h : result' = result) : Keeps result result' := fun _ ha => h.trans ha

/-- What fails promises nothing. -/
theorem of_error {error : ε} (h : result = .error error) : Keeps result result' := by
  intro a ha
  rw [h] at ha
  cases ha

/-- A result that is kept is the same for what is done with it. -/
theorem bind {next next' : α → Except ε β} (h : Keeps result result')
    (hnext : ∀ a, result = .ok a → Keeps (next a) (next' a)) :
    Keeps (result >>= next) (result' >>= next') := by
  cases hresult : result with
  | error error => exact of_error rfl
  | ok a =>
    rw [h a hresult]
    exact hnext a hresult

theorem map (f : α → β) (h : Keeps result result') : Keeps (result.map f) (result'.map f) := by
  cases hresult : result with
  | error error => exact of_error rfl
  | ok a =>
    rw [h a hresult]
    exact of_eq rfl

theorem ite {P : Prop} [Decidable P] {one other one' other' : Except ε α}
    (hone : P → Keeps one one') (hother : ¬ P → Keeps other other') :
    Keeps (if P then one else other) (if P then one' else other') := by
  by_cases h : P
  · rw [if_pos h, if_pos h]
    exact hone h
  · rw [if_neg h, if_neg h]
    exact hother h

end Keeps

section LineEnd

variable (more : List Char)

/-! ### Runs of characters -/

/-- A run of characters that are no line end stops before it. -/
theorem takeWhile_append_lineEnd (h : p '\n' = false) (text : List Char) :
    (text ++ '\n' :: more).takeWhile p = text.takeWhile p := by
  induction text with
  | nil => exact takeWhile_cons_of_neg (by rw [h]; exact Bool.false_ne_true)
  | cons c text ih => rw [cons_append, takeWhile_cons, takeWhile_cons, ih]

/-- A run that ends in the text ends there with more text behind it. -/
theorem takeWhile_append_of_lt (h : (text.takeWhile p).length < text.length) :
    (text ++ more).takeWhile p = text.takeWhile p := by
  induction text with
  | nil => cases h
  | cons c text ih =>
    rw [cons_append, takeWhile_cons, takeWhile_cons]
    cases hc : p c with
    | false => rfl
    | true =>
      rw [takeWhile_cons_of_pos hc] at h
      rw [ih (Nat.lt_of_succ_lt_succ h)]

/-- Behind a part of the text there is as much more. -/
theorem drop_append_of_isPrefix {read text : List Char} (h : read <+: text) :
    (text ++ more).drop read.length = text.drop read.length ++ more :=
  drop_append_of_le_length h.length_le

theorem head?_beq_append_lineEnd {c : Char} (h : c ≠ '\n') (text : List Char) :
    ((text ++ '\n' :: more).head? == some c) = (text.head? == some c) := by
  cases text with
  | nil => exact beq_eq_false_iff_ne.2 fun hsome => h (Option.some.inj hsome).symm
  | cons d text => rfl

theorem head?_bne_append_lineEnd {c : Char} (h : c ≠ '\n') (text : List Char) :
    ((text ++ '\n' :: more).head? != some c) = (text.head? != some c) :=
  congrArg (!·) (head?_beq_append_lineEnd more h text)

theorem isPrefixOf_append_lineEnd {word : List Char} (h : '\n' ∉ word) (text : List Char) :
    word.isPrefixOf (text ++ '\n' :: more) = word.isPrefixOf text := by
  induction word generalizing text with
  | nil => rfl
  | cons c word ih =>
    rw [mem_cons, not_or] at h
    cases text with
    | nil =>
      rw [nil_append, isPrefixOf_cons_cons, beq_eq_false_iff_ne.2 (Ne.symm h.1)]
      rfl
    | cons d text =>
      rw [cons_append, isPrefixOf_cons_cons, isPrefixOf_cons_cons, ih h.2]

/-- The first character, if it is one of some class. -/
theorem filter_take_append_lineEnd (h : p '\n' = false) (text : List Char) :
    ((text ++ '\n' :: more).take 1).filter p = (text.take 1).filter p := by
  cases text with
  | nil => exact filter_cons_of_neg (by rw [h]; exact Bool.false_ne_true)
  | cons c text => rfl

/-! ### Names and variables -/

theorem nameMark_append_lineEnd (text : List Char) :
    nameMark (text ++ '\n' :: more) = nameMark text := by
  cases text with
  | nil => rfl
  | cons c rest =>
    -- a mark before an equals sign is a part of the operator, unless there are two
    have hsecond : (((rest ++ '\n' :: more).head? != some '=' ||
        ((rest ++ '\n' :: more).drop 1).head? == some '=')) =
          (rest.head? != some '=' || (rest.drop 1).head? == some '=') := by
      cases rest with
      | nil => rfl
      | cons d rest => exact congrArg (_ || ·) (head?_beq_append_lineEnd more (by decide) rest)
    rw [cons_append, nameMark, nameMark, hsecond]

theorem startsWithColon_append_lineEnd (text : List Char) :
    startsWithColon (text ++ '\n' :: more) = startsWithColon text := by
  cases text with
  | nil => rfl
  | cons c rest =>
    by_cases hc : c = ':'
    · subst hc
      exact head?_bne_append_lineEnd more (by decide) rest
    -- without a colon in front nothing behind it matters
    · have hcolon : ∀ text, startsWithColon (c :: text) = false := by
        intro text
        unfold startsWithColon
        split
        next heq => exact absurd (List.cons.inj heq).1 hc
        next => rfl
      rw [cons_append, hcolon, hcolon]

/-- A name and its mark are on one line. -/
theorem name_append_lineEnd (context : Context) (text : List Char) :
    Lexeme.name context (text ++ '\n' :: more) = Lexeme.name context text := by
  have hstem := takeWhile_append_lineEnd more (p := isNameChar) (by decide) text
  have hprefix := takeWhile_prefix isNameChar (l := text)
  unfold Lexeme.name
  dsimp only
  rw [hstem, drop_append_of_isPrefix _ hprefix, nameMark_append_lineEnd]
  have hmark := prefix_nameMark (text.drop (text.takeWhile isNameChar).length)
  have hword := prefix_append hprefix hmark
  rw [drop_append_of_isPrefix _ hword, startsWithColon_append_lineEnd]

theorem atVariable_append_lineEnd (rest : List Char) :
    atVariable (rest ++ '\n' :: more) = atVariable rest := by
  have hname : ∀ text, (text ++ '\n' :: more).takeWhile isNameChar = text.takeWhile isNameChar :=
    takeWhile_append_lineEnd more (by decide)
  unfold atVariable
  rw [head?_beq_append_lineEnd more (by decide)]
  by_cases hat : (rest.head? == some '@') = true
  · obtain ⟨tail, rfl⟩ := head?_eq_some_iff.1 (eq_of_beq hat)
    rw [if_pos hat]
    dsimp only
    rw [cons_append, drop_succ_cons, drop_succ_cons, drop_zero, drop_zero,
      hname]
  · rw [if_neg hat]
    dsimp only
    rw [drop_zero, drop_zero, hname]

theorem globalVariable_append_lineEnd (rest : List Char) :
    globalVariable (rest ++ '\n' :: more) = globalVariable rest := by
  unfold globalVariable
  rw [takeWhile_append_lineEnd more (by decide), filter_take_append_lineEnd more (by decide)]

/-! ### Numerals -/

/-- A line end is in no class of characters without blanks. -/
theorem lineEnd_eq_false (h : ∀ {c}, p c = true → isBlank c = false) : p '\n' = false := by
  refine Bool.eq_false_iff.2 fun hp => ?_
  cases h hp

theorem radixMark?_append_lineEnd (text : List Char) :
    radixMark? (text ++ '\n' :: more) = radixMark? text := by
  by_cases hzero : text.head? = some '0'
  · obtain ⟨rest, rfl⟩ := head?_eq_some_iff.1 hzero
    cases rest <;> rfl
  -- only a zero starts the mark of a radix
  · have hnone : ∀ text : List Char, text.head? ≠ some '0' → radixMark? text = none := by
      intro text htext
      unfold radixMark?
      split
      next => exact absurd rfl htext
      next => rfl
    have hhead : (text ++ '\n' :: more).head? ≠ some '0' := by
      rw [← beq_eq_false_iff_ne, head?_beq_append_lineEnd more (by decide), beq_eq_false_iff_ne]
      exact hzero
    rw [hnone _ hhead, hnone _ hzero]

theorem any_head?_append_lineEnd (h : p '\n' = false) (text : List Char) :
    (text ++ '\n' :: more).head?.any p = text.head?.any p := by
  cases text with
  | nil => exact h
  | cons c text => rfl

theorem fraction_append_lineEnd (text : List Char) :
    fraction (text ++ '\n' :: more) = fraction text := by
  cases text with
  | nil => rfl
  | cons c rest =>
    rw [cons_append, Positions.fraction_cons, Positions.fraction_cons,
      any_head?_append_lineEnd more (by decide), takeWhile_append_lineEnd more (by decide)]

theorem exponentSign_append_lineEnd (text : List Char) :
    exponentSign (text ++ '\n' :: more) = exponentSign text := by
  cases text with
  | nil => rfl
  | cons c rest => rw [cons_append, Positions.exponentSign_cons, Positions.exponentSign_cons]

theorem exponentPart_append_lineEnd (text : List Char) :
    exponentPart (text ++ '\n' :: more) = exponentPart text := by
  cases text with
  | nil => rfl
  | cons c rest =>
    rw [cons_append, exponentPart, exponentPart]
    dsimp only
    rw [exponentSign_append_lineEnd, drop_append_of_isPrefix _ (prefix_exponentSign rest),
      takeWhile_append_lineEnd more (by decide)]

/-- A numeral is on one line. -/
theorem scanNumeral_append_lineEnd (text : List Char) :
    scanNumeral (text ++ '\n' :: more) = scanNumeral text := by
  unfold scanNumeral
  rw [radixMark?_append_lineEnd]
  split
  next radix mark hmark =>
    obtain ⟨-, hle, -⟩ := radixMark?_eq_some hmark
    have hbody : (text.drop mark ++ '\n' :: more).takeWhile (isNumeralChar radix) =
        (text.drop mark).takeWhile (isNumeralChar radix) :=
      takeWhile_append_lineEnd more (lineEnd_eq_false isBlank_of_isNumeralChar) _
    have hlength := (List.takeWhile_prefix (isNumeralChar radix) (l := text.drop mark)).length_le
    rw [length_drop] at hlength
    dsimp only
    rw [drop_append_of_le_length hle, hbody, take_append_of_le_length (by omega)]
  next hnone =>
    have hwhole := takeWhile_append_lineEnd more (p := isNumeralChar 10) (by decide) text
    have hprefix := takeWhile_prefix (isNumeralChar 10) (l := text)
    dsimp only
    rw [hwhole, drop_append_of_isPrefix _ hprefix, fraction_append_lineEnd]
    -- the exponent stands behind the whole part and the fraction
    have hfraction := prefix_append hprefix
      (prefix_fraction (text.drop (text.takeWhile (isNumeralChar 10)).length))
    rw [← length_append, drop_append_of_isPrefix _ hfraction, exponentPart_append_lineEnd]

/-! ### Strings -/

theorem digitRun_append_lineEnd (radix most : Nat) (text : List Char) :
    digitRun radix most (text ++ '\n' :: more) = digitRun radix most text := by
  unfold digitRun
  rcases Nat.le_total most text.length with hle | hle
  · rw [take_append_of_le_length hle]
  · rw [take_of_length_le hle, take_append, take_of_length_le hle]
    cases most - text.length with
    | zero => rw [take_zero, append_nil]
    | succ n =>
      rw [take_succ_cons]
      exact takeWhile_append_lineEnd _ (lineEnd_eq_false isBlank_of_isDigitOf) text

theorem bracedCodePoints_append_lineEnd (seen : Bool) (text : List Char) :
    bracedCodePoints seen (text ++ '\n' :: more) = bracedCodePoints seen text := by
  induction hlength : text.length using Nat.strong_induction_on generalizing seen text with
  | h length ih =>
    have hblanks := takeWhile_append_lineEnd more (p := (· == ' ')) (by decide) text
    have hprefix := takeWhile_prefix (· == ' ') (l := text)
    rw [bracedCodePoints, bracedCodePoints.eq_def seen text]
    dsimp only
    rw [hblanks, drop_append_of_isPrefix _ hprefix, head?_beq_append_lineEnd more (by decide),
      digitRun_append_lineEnd]
    have hrest : (text.drop (text.takeWhile (· == ' ')).length).length ≤ text.length := by
      rw [length_drop]
      exact Nat.sub_le _ _
    generalize text.drop (text.takeWhile (· == ' ')).length = rest at hrest ⊢
    have hle := length_digitRun_le 16 6 rest
    refine if_congr Iff.rfl rfl ?_
    -- each round takes a digit at least
    by_cases hnone : (digitRun 16 6 rest).length = 0
    · rw [if_pos hnone, if_pos hnone]
    · have hlt : (rest.drop (digitRun 16 6 rest).length).length < length := by
        rw [length_drop]
        omega
      rw [if_neg hnone, if_neg hnone, drop_append_of_le_length hle, ih _ hlt true _ rfl]

/-- The text behind a backslash, where there is any. -/
theorem decodeEscape_append_lineEnd (c : Char) (rest : List Char) :
    decodeEscape (c :: rest ++ '\n' :: more) = decodeEscape (c :: rest) := by
  have hrun : ∀ radix most, digitRun radix most (c :: (rest ++ '\n' :: more)) =
      digitRun radix most (c :: rest) := fun radix most =>
    digitRun_append_lineEnd more radix most (c :: rest)
  rw [cons_append, decodeEscape, decodeEscape]
  simp only [hrun, digitRun_append_lineEnd]
  by_cases hbrace : (rest.head? == some '{') = true
  · obtain ⟨tail, rfl⟩ := head?_eq_some_iff.1 (eq_of_beq hbrace)
    rw [cons_append, drop_succ_cons, drop_succ_cons, drop_zero, drop_zero,
      bracedCodePoints_append_lineEnd]
    rfl
  · rw [head?_beq_append_lineEnd more (by decide), if_neg hbrace, if_neg hbrace]

/-- A brace that closes the code closes it with more text behind it. -/
theorem closingBrace_append {length : Nat} (h : closingBrace text = some length) :
    closingBrace (text ++ more) = some length := by
  have hlt := closingBraceFrom_lt h
  rw [closingBrace_eq_some_iff] at h ⊢
  rwa [getElem?_append_left hlt, take_append_of_le_length (Nat.le_of_lt hlt)]

/-- A first piece that was read is closed, and what closes it stays where it is. -/
theorem keeps_firstPieces (close : Option Char) (interpolated : Bool) (line : Nat) (c : Char)
    (rest : List Char) :
    Keeps (firstPieces close interpolated line c rest)
      (firstPieces close interpolated line c (rest ++ '\n' :: more)) := by
  unfold firstPieces
  refine .ite (fun _ => ?_) fun _ => ?_
  -- a backslash at the end of the text escapes nothing there, and the line end in the longer one
  · cases rest with
    | nil => exact .of_error rfl
    | cons next rest =>
      rw [decodeEscape_append_lineEnd]
      exact .of_eq rfl
  · rw [head?_beq_append_lineEnd more (by decide)]
    refine .ite (fun hcode => ?_) fun _ => .of_eq rfl
    simp only [Bool.and_eq_true, beq_iff_eq] at hcode
    obtain ⟨tail, rfl⟩ := head?_eq_some_iff.1 hcode.2
    rw [cons_append, drop_succ_cons, drop_succ_cons, drop_zero, drop_zero]
    cases hbrace : closingBrace tail with
    | none => exact .of_error rfl
    | some length =>
      have hlt := closingBraceFrom_lt hbrace
      rw [closingBrace_append _ hbrace]
      dsimp only
      rw [take_append_of_le_length (Nat.le_of_lt hlt)]
      exact .of_eq rfl

/-- A body that is closed in the text is closed there with another line behind it. -/
theorem keeps_scanPieces (close : Char) (interpolated : Bool) (line : Nat) (text : List Char) :
    Keeps (scanPieces (some close) interpolated line text)
      (scanPieces (some close) interpolated line (text ++ '\n' :: more)) := by
  induction hlength : text.length using Nat.strong_induction_on generalizing line text with
  | h length ih =>
    cases text with
    | nil => exact .of_error (by rw [scanPieces]; rfl)
    | cons c rest =>
      rw [cons_append]
      by_cases hclose : (some c == some close) = true
      · rw [scanPieces, scanPieces, if_pos hclose, if_pos hclose]
        exact .of_eq rfl
      · rw [scanPieces_cons interpolated line _ hclose, scanPieces_cons interpolated line _ hclose]
        refine (keeps_firstPieces more _ interpolated line c rest).bind fun first hfirst => ?_
        refine .bind ?_ fun found _ => .of_eq rfl
        have hpos := scans_firstPieces (some close) interpolated line c rest
        rw [hfirst] at hpos
        -- behind the end of the text the body is not closed
        rcases Nat.lt_or_ge (c :: rest).length first.2.length with hlt | hle
        · rw [drop_eq_nil_of_le (Nat.le_of_lt hlt)]
          exact .of_error (by rw [scanPieces]; rfl)
        · rw [← cons_append, drop_append_of_le_length hle]
          refine ih _ ?_ _ _ rfl
          have hfirstPos := hpos.1
          rw [← hlength, length_drop, length_cons]
          omega

theorem keeps_closedBy (close : Char) (interpolated : Bool) (token : List StringPart → Token)
    (line opening : Nat) (text : List Char) :
    Keeps (closedBy close interpolated token line opening text)
      (closedBy close interpolated token line opening (text ++ '\n' :: more)) :=
  .bind (.bind (keeps_scanPieces more close interpolated line text) fun _ _ => .of_eq rfl)
    fun _ _ => .of_eq rfl

theorem keeps_wordList (symbols : Bool) (close : Char) (opening : Nat) (text : List Char) :
    Keeps (wordList symbols close opening text)
      (wordList symbols close opening (text ++ '\n' :: more)) := by
  unfold wordList
  dsimp only
  rcases Nat.lt_or_ge (text.takeWhile (· != close)).length text.length with hlt | hle
  · have hlonger : ¬ (text ++ '\n' :: more).length ≤ (text.takeWhile (· != close)).length := by
      rw [length_append]
      omega
    rw [takeWhile_append_of_lt _ hlt, if_neg (Nat.not_le_of_lt hlt), if_neg hlonger]
    exact .of_eq rfl
  · rw [if_pos hle]
    exact .of_error rfl

/-! ### Symbols, lists of words and regular expressions -/

theorem symbolMark_append_lineEnd (text : List Char) :
    symbolMark (text ++ '\n' :: more) = symbolMark text := by
  cases text with
  | nil => rfl
  | cons c rest =>
    rw [cons_append, symbolMark, symbolMark, head?_bne_append_lineEnd more (by decide),
      head?_bne_append_lineEnd more (by decide)]

/-- A symbol is a name on the line, or a string that is closed. -/
theorem keeps_symbol? (context : Context) (line : Nat) (rest : List Char) :
    Keeps (symbol? context line rest) (symbol? context line (rest ++ '\n' :: more)) := by
  unfold symbol?
  rw [head?_beq_append_lineEnd more (by decide)]
  refine .ite (fun _ => .of_eq rfl) fun _ => ?_
  cases rest with
  | nil => exact .of_eq rfl
  | cons c rest =>
    dsimp only [head?_cons, cons_append]
    -- a quoted symbol, a name, or a pair of brackets
    refine .ite (fun _ => ?_) fun _ => .ite (fun _ => .of_eq ?_) fun _ => .of_eq ?_
    · exact (keeps_closedBy more _ _ _ _ _ rest).map some
    · have hstem := takeWhile_append_lineEnd more (p := isNameChar) (by decide) (c :: rest)
      rw [← cons_append, hstem, drop_append_of_isPrefix _ (List.takeWhile_prefix isNameChar),
        symbolMark_append_lineEnd]
    · cases rest <;> rfl

theorem percentHead?_append_lineEnd (rest : List Char) :
    percentHead? (rest ++ '\n' :: more) = percentHead? rest := by
  cases rest with
  | nil => rfl
  | cons kind rest =>
    rw [cons_append, percentHead?, percentHead?]
    refine if_congr Iff.rfl ?_ rfl
    cases rest <;> rfl

theorem keeps_percent? (line : Nat) (rest : List Char) :
    Keeps (percent? line rest) (percent? line (rest ++ '\n' :: more)) := by
  unfold percent?
  rw [percentHead?_append_lineEnd]
  cases hhead : percentHead? rest with
  | none => exact .of_eq rfl
  | some found =>
    obtain ⟨kind, opener, head⟩ := found
    have hle := Positions.percentHead?_le hhead
    dsimp only
    rw [drop_append_of_le_length hle]
    refine .ite (fun _ => ?_) fun _ => .ite (fun _ => ?_) fun _ => ?_
    · exact (keeps_wordList more _ _ _ _).map some
    · exact (keeps_wordList more _ _ _ _).map some
    · exact (keeps_closedBy more _ _ _ _ _ _).map some

/-- The slash that closes an expression is found before more text. -/
theorem regexLength?_append {length : Nat} (h : regexLength? text = some length) :
    regexLength? (text ++ more) = some length := by
  induction hsize : text.length using Nat.strong_induction_on generalizing text length with
  | h size ih =>
    cases text with
    | nil => cases h
    | cons c rest =>
      rw [cons_append]
      rw [regexLength?_cons] at h ⊢
      rw [length_cons] at hsize
      by_cases hescape : (c == '\\') = true
      · rw [if_pos hescape] at h ⊢
        obtain ⟨n, hn, rfl⟩ := Option.map_eq_some_iff.1 h
        cases rest with
        | nil => cases hn
        | cons d rest =>
          rw [length_cons] at hsize
          have hrest : regexLength? (rest ++ more) = some n := ih rest.length (by omega) hn rfl
          rw [cons_append, drop_succ_cons, drop_zero, hrest]
          rfl
      rw [if_neg hescape] at h ⊢
      by_cases hslash : (c == '/') = true
      · rw [if_pos hslash] at h ⊢
        exact h
      rw [if_neg hslash] at h ⊢
      -- a regular expression does not reach over a line end
      by_cases hline : (c == '\n') = true
      · rw [if_pos hline] at h
        cases h
      rw [if_neg hline] at h ⊢
      obtain ⟨n, hn, rfl⟩ := Option.map_eq_some_iff.1 h
      rw [ih rest.length (by omega) hn rfl]
      rfl

theorem keeps_regex (rest : List Char) : Keeps (regex rest) (regex (rest ++ '\n' :: more)) := by
  unfold regex
  cases hlength : regexLength? rest with
  | none => exact .of_error rfl
  | some length =>
    obtain ⟨hlt, -⟩ := List.getElem?_eq_some_iff.1 (getElem?_regexLength? hlength)
    rw [regexLength?_append _ hlength]
    dsimp only
    rw [drop_append_of_le_length hlt, take_append_of_le_length (Nat.le_of_lt hlt),
      takeWhile_append_lineEnd more (by decide)]
    exact .of_eq rfl

/-! ### Heredoc openers, marks and operators -/

theorem take_beq_append_lineEnd {word : List Char} (h : '\n' ∉ word) (text : List Char) :
    ((text ++ '\n' :: more).take word.length == word) = (text.take word.length == word) := by
  have htake : ∀ text : List Char, (text.take word.length == word) = word.isPrefixOf text := by
    intro text
    rw [Bool.eq_iff_iff, beq_iff_eq, isPrefixOf_iff_prefix, prefix_iff_eq_take, eq_comm]
  rw [htake, htake, isPrefixOf_append_lineEnd more h]

/-- The opener of a heredoc is on one line. -/
theorem heredocOpener?_append_lineEnd (text : List Char) :
    heredocOpener? (text ++ '\n' :: more) = heredocOpener? text := by
  unfold heredocOpener?
  dsimp only
  rw [filter_take_append_lineEnd more (by decide), drop_append_of_isPrefix _ (prefix_filter _ text)]
  -- the mark, the quote, the name and the quote again lie one behind another
  generalize (text.take 1).filter (fun c => c == '~' || c == '-') = mark
  generalize text.drop mark.length = behind
  have hquote := prefix_filter (fun c => c == '\'' || c == '"' || c == '\x60') behind
  have hline : '\n' ∉ (behind.take 1).filter (fun c => c == '\'' || c == '"' || c == '\x60') :=
    fun hmem => absurd (mem_filter.1 hmem).2 (by decide)
  rw [filter_take_append_lineEnd more (by decide), drop_append_of_isPrefix _ hquote]
  generalize (behind.take 1).filter (fun c => c == '\'' || c == '"' || c == '\x60') = quote at *
  have hname := takeWhile_prefix isNameChar (l := behind.drop quote.length)
  have hid := prefix_append hquote hname
  rw [takeWhile_append_lineEnd more (by decide), ← length_append,
    drop_append_of_isPrefix _ hid, take_beq_append_lineEnd more hline]

theorem punctuation?_append_lineEnd (c : Char) (rest : List Char) :
    punctuation? c (rest ++ '\n' :: more) = punctuation? c rest := by
  unfold punctuation?
  rw [head?_beq_append_lineEnd more (by decide)]

/-- No operator has a line end in it. -/
theorem operator?_append_lineEnd (text : List Char) :
    operator? (text ++ '\n' :: more) = operator? text := by
  unfold operator?
  refine congrArg (Option.map _) (find?_congr fun row hrow => ?_)
  obtain ⟨-, hblank⟩ := operatorTable_spec row hrow
  have hline : '\n' ∉ row.1.toList := fun hmem => any_eq_false.1 hblank _ hmem rfl
  exact isPrefixOf_append_lineEnd more hline text

theorem markStep_append_lineEnd (c : Char) (rest : List Char) :
    markStep c (rest ++ '\n' :: more) = markStep c rest := by
  unfold markStep
  rw [punctuation?_append_lineEnd, ← cons_append, operator?_append_lineEnd]

/-! ### Steps -/

theorem allowsLiteral_append_lineEnd (context : Context) (text : List Char) :
    context.allowsLiteral (text ++ '\n' :: more).head? = context.allowsLiteral text.head? := by
  unfold Context.allowsLiteral Context.startsArgument
  rw [any_head?_append_lineEnd more (by decide)]

/-- The first attempt is kept, so the other is made in both texts or in none. -/
theorem Keeps.orElse {attempt attempt' : Except Fault (Option Lexeme)}
    {other other' : Unit → Except Fault Step} (h : Keeps attempt attempt')
    (hother : Keeps (other ()) (other' ())) :
    Keeps (Step.orElse attempt other) (Step.orElse attempt' other') := by
  cases hattempt : attempt with
  | error fault => exact .of_error rfl
  | ok found =>
    rw [h found hattempt]
    cases found with
    | none => exact hother
    | some lexeme => exact .of_eq rfl

theorem keeps_literalStep (context : Context) (line : Nat) (c : Char) (rest : List Char) :
    Keeps (literalStep context line c rest)
      (literalStep context line c (rest ++ '\n' :: more)) := by
  have hmark : Keeps (markStep c rest) (markStep c (rest ++ '\n' :: more)) :=
    .of_eq (markStep_append_lineEnd more c rest)
  unfold literalStep
  rw [allowsLiteral_append_lineEnd]
  refine .ite (fun _ => (keeps_symbol? more context line rest).orElse hmark) fun _ => ?_
  refine .ite (fun _ => (keeps_percent? more line rest).orElse hmark) fun _ => ?_
  refine .ite (fun _ => (keeps_regex more rest).map Step.lexeme) fun _ => ?_
  rw [head?_beq_append_lineEnd more (by decide)]
  cases rest with
  | nil =>
    have hnone : (([] : List Char).head? == some '<') = false := rfl
    rw [hnone, Bool.and_false, Bool.false_and, Bool.false_and]
    exact hmark
  | cons d rest =>
    -- whether a heredoc may be opened depends on the character behind its two marks
    rw [cons_append, drop_succ_cons, drop_succ_cons, drop_zero, drop_zero,
      allowsLiteral_append_lineEnd, heredocOpener?_append_lineEnd]
    refine .ite (fun _ => ?_) fun _ => hmark
    cases heredocOpener? rest with
    | none => exact hmark
    | some found => exact .of_eq rfl

/-- A comment that was closed is closed at the same line. -/
theorem blockComment?_append {extent : Extent} (h : blockComment? text = some extent) :
    blockComment? (text ++ '\n' :: more) = some extent := by
  have hline : ∀ text : List Char, (text ++ '\n' :: more).takeWhile (· != '\n') =
      text.takeWhile (· != '\n') := takeWhile_append_lineEnd more (by decide)
  -- a line that ends inside the text ends there in the longer one
  have hdrop : ∀ {text rest : List Char} {c : Char},
      text.drop (text.takeWhile (· != '\n')).length = c :: rest →
        (text ++ '\n' :: more).drop ((text ++ '\n' :: more).takeWhile (· != '\n')).length =
          c :: (rest ++ '\n' :: more) := by
    intro text rest c hrest
    rw [hline, drop_append_of_isPrefix _ (List.takeWhile_prefix _), hrest, cons_append]
  induction text using blockComment?.induct generalizing extent with
  | case1 text line =>
    rename_i hend
    rw [blockComment?_of_last_line hend] at h
    cases h
  | case2 text line c rest =>
    rename_i hrest hclosed
    rw [blockComment?_of_line hrest, if_pos hclosed] at h
    rw [blockComment?_of_line (hdrop hrest), isPrefixOf_append_lineEnd more (by decide),
      if_pos hclosed, hline, hline]
    exact h
  | case3 text line c rest =>
    rename_i hrest hopen ih
    rw [blockComment?_of_line hrest, if_neg hopen] at h
    obtain ⟨inner, hinner, rfl⟩ := Option.map_eq_some_iff.1 h
    rw [blockComment?_of_line (hdrop hrest), isPrefixOf_append_lineEnd more (by decide),
      if_neg hopen, ih hinner, hline]
    rfl

theorem atEndMarker_append_lineEnd (text : List Char) :
    atEndMarker (text ++ '\n' :: more) = atEndMarker text := by
  unfold atEndMarker
  rw [isPrefixOf_append_lineEnd more (by decide)]
  -- behind the marker the line has to end, as the text does
  cases hmarker : "__END__".toList.isPrefixOf text with
  | false => rfl
  | true =>
    obtain ⟨rest, rfl⟩ := isPrefixOf_iff_prefix.1 hmarker
    cases rest <;> rfl

/-- A backslash at the end of a text joins no lines. -/
theorem nextStep_backslash (context : Context) (line : Nat) :
    nextStep context line '\\' [] = .error (.unexpectedChar '\\') := by
  obtain ⟨last, gap⟩ := context
  cases gap <;> rfl

/-- What a step finds is found with another line behind the text. -/
theorem keeps_nextStep (context : Context) (line : Nat) (c : Char) (rest : List Char) :
    Keeps (nextStep context line c rest) (nextStep context line c (rest ++ '\n' :: more)) := by
  -- the one step that would find more in the longer text: a backslash there joins the two lines
  by_cases hlast : c = '\\' ∧ rest = []
  · obtain ⟨rfl, rfl⟩ := hlast
    exact .of_error (nextStep_backslash context line)
  have hjoin : (c == '\\' && (rest ++ '\n' :: more).head? == some '\n') =
      (c == '\\' && rest.head? == some '\n') := by
    cases rest with
    | nil =>
      have hc : (c == '\\') = false := beq_eq_false_iff_ne.2 fun hc => hlast ⟨hc, rfl⟩
      rw [hc, Bool.false_and, Bool.false_and]
    | cons d rest => rfl
  unfold nextStep
  dsimp only
  rw [hjoin, ← cons_append, isPrefixOf_append_lineEnd more (by decide),
    atEndMarker_append_lineEnd, takeWhile_append_lineEnd more (by decide),
    scanNumeral_append_lineEnd, name_append_lineEnd, atVariable_append_lineEnd,
    globalVariable_append_lineEnd]
  refine .ite (fun _ => ?_) fun _ => ?_
  · cases hcomment : blockComment? (c :: rest) with
    | none => exact .of_error rfl
    | some extent =>
      rw [blockComment?_append more hcomment]
      exact .of_eq rfl
  refine .ite (fun _ => .of_eq rfl) fun _ => ?_
  refine .ite (fun _ => .of_eq rfl) fun _ => ?_
  refine .ite (fun _ => .of_eq rfl) fun _ => ?_
  refine .ite (fun _ => .of_eq rfl) fun _ => ?_
  refine .ite (fun _ => .of_eq rfl) fun _ => ?_
  refine .ite (fun _ => (keeps_closedBy more _ _ _ _ _ rest).map Step.lexeme) fun _ => ?_
  refine .ite (fun _ => (keeps_closedBy more _ _ _ _ _ rest).map Step.lexeme) fun _ => ?_
  refine .ite (fun _ => (keeps_closedBy more _ _ _ _ _ rest).map Step.lexeme) fun _ => ?_
  refine .ite (fun _ => .of_eq rfl) fun _ => ?_
  refine .ite (fun _ => .of_eq rfl) fun _ => ?_
  refine .ite (fun _ => .of_eq rfl) fun _ => ?_
  refine .ite (fun _ => .of_eq rfl) fun _ => ?_
  exact keeps_literalStep more context line c rest

/-! ### Heredocs -/

/-- Where the body of a heredoc ends: behind a line end, or behind the end of the text, which closes
it as a line end would. -/
inductive ClosedIn (text : List Char) (length : Nat) : Prop where
  | inside (hle : length ≤ text.length) (hgap : Gap.behind (text.take length) = .lineStart)
  | atEnd (heq : length = text.length + 1)

/-- Some lines and what stands behind them. -/
theorem ClosedIn.append {length count : Nat} (hle : length ≤ text.length)
    (hgap : Gap.behind (text.take length) = .lineStart) (h : ClosedIn (text.drop length) count) :
    ClosedIn text (length + count) := by
  cases h with
  | inside hle' hgap' =>
    rw [length_drop] at hle'
    refine .inside (by omega) ?_
    rw [take_add]
    exact Gap.behind_append_lineStart hgap hgap'
  | atEnd heq =>
    rw [length_drop] at heq
    exact .atEnd (by omega)

/-- A heredoc that was closed is closed at the same line. -/
theorem heredocLines?_append {opener : HeredocOpener} {lines : List (List Char)} {length : Nat}
    (h : heredocLines? opener text = some (lines, length)) :
    heredocLines? opener (text ++ '\n' :: more) = some (lines, length) ∧ ClosedIn text length := by
  induction text using heredocLines?.induct opener generalizing lines length with
  | case1 =>
    rw [heredocLines?] at h
    cases h
  | case2 c rest line =>
    rename_i hend
    have hline : (c :: (rest ++ '\n' :: more)).takeWhile (· != '\n') = line :=
      takeWhile_append_lineEnd more (by decide) (c :: rest)
    rw [heredocLines?, if_pos hend] at h
    cases h
    refine ⟨?_, ?_⟩
    · rw [cons_append, heredocLines?]
      dsimp only
      rw [hline, if_pos hend]
    · have hprefix := (List.takeWhile_prefix (· != '\n') (l := c :: rest)).length_le
      rcases drop_line (c :: rest) with hdrop | ⟨tail, hdrop⟩
      · have hle := drop_eq_nil_iff.1 hdrop
        exact .atEnd (congrArg (· + 1) (Nat.le_antisymm hprefix hle))
      · have hlength := congrArg List.length hdrop
        rw [length_drop, length_cons, length_cons] at hlength
        exact .inside (by rw [length_cons]; omega) (behind_line hdrop)
  | case3 c rest line =>
    rename_i hend ih
    have hline : (c :: (rest ++ '\n' :: more)).takeWhile (· != '\n') = line :=
      takeWhile_append_lineEnd more (by decide) (c :: rest)
    rw [heredocLines?, if_neg hend] at h
    obtain ⟨⟨others, count⟩, hothers, hfound⟩ := Option.map_eq_some_iff.1 h
    cases hfound
    obtain ⟨hread, hclosed⟩ := ih hothers
    rcases drop_line (c :: rest) with hdrop | ⟨tail, hdrop⟩
    -- behind the last line there is no closing one
    · have hnil : rest.drop line.length = [] := by
        rw [← drop_succ_cons (a := c), ← drop_drop, hdrop, drop_nil]
      rw [hnil, heredocLines?] at hothers
      cases hothers
    · have hlength := congrArg List.length hdrop
      rw [length_drop, length_cons, length_cons] at hlength
      have hle : line.length ≤ rest.length := by
        change ((c :: rest).takeWhile (· != '\n')).length ≤ _
        omega
      refine ⟨?_, ?_⟩
      · rw [cons_append, heredocLines?]
        dsimp only
        rw [hline, if_neg hend, drop_append_of_le_length hle, hread]
        rfl
      · exact .append (Nat.succ_le_succ hle) (behind_line hdrop) hclosed

/-- The bodies that were read are read before more text, too. -/
theorem readBodies_append {file : String} {pending : List PendingHeredoc} {line : Nat}
    {bodies : HeredocBodies} (h : readBodies file pending line text = .ok bodies) :
    readBodies file pending line (text ++ '\n' :: more) = .ok bodies ∧
      ClosedIn text bodies.extent.length := by
  induction pending generalizing line text bodies with
  | nil =>
    cases h
    exact ⟨rfl, .inside (Nat.zero_le _) rfl⟩
  | cons heredoc others ih =>
    rw [readBodies] at h
    split at h
    · cases h
    next lines length hfound =>
      obtain ⟨hfound', hclosed⟩ := heredocLines?_append more hfound
      rw [readBodies, hfound']
      dsimp only
      split at h
      · cases h
      next parts hparts =>
        cases hrest : readBodies file others (line + lines.length + 1) (text.drop length) with
        | error failure =>
          rw [hrest] at h
          cases h
        | ok rest =>
          rw [hrest] at h
          cases h
          cases hclosed with
          | inside hle hgap =>
            obtain ⟨hrest', hclosed'⟩ := ih hrest
            rw [drop_append_of_le_length hle, hrest']
            exact ⟨rfl, .append hle hgap hclosed'⟩
          -- the end of the text closes one heredoc only
          | atEnd heq =>
            rw [drop_eq_nil_of_le (by omega)] at hrest
            cases others with
            | nil =>
              cases hrest
              exact ⟨rfl, .atEnd heq⟩
            | cons heredoc' others =>
              rw [readBodies, heredocLines?] at hrest
              cases hrest

end LineEnd

end LaneScript
