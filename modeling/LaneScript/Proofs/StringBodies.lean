import LaneScript.Grammar.Parse
import LaneScript.Proofs.TextExtents
import Mathlib.Data.List.Chain
import Mathlib.Logic.Basic

/-!
# What the body of a string is read as

The body of a string is read piece by piece, and each piece is looked at once, with `Scans` for its
outcome.  `BodyRead` is what is said of a whole body:

* it ends with the character that closes it, and it counts the line ends that it passes;
* its parts are joined, `PartsJoined`: a text never stands beside another, and it is empty only
  where it is alone;
* the code in it lies on the lines that it passes, `CodesFit`;
* there is no more to read in its parts than in the body, `partsWeight`, since the code of an
  interpolation is shorter than the interpolation.

An outcome that is a fault is a fault of a text (`Fault.isOfText`), and not one that is found only
when the tokens are read.
-/

namespace LaneScript

open Literal
open Text (isBlank)
open List

variable {text : List Char}

/-! ### Outcomes -/

/-- The fault is found in a text, and not in its tokens. -/
def Fault.isOfText : Fault → Bool
  | .unexpected _ | .expected _ _ | .invalidTarget | .invalidTargetToken _ | .nestedTooDeep
  | .unbalanced | .outOfFuel => false
  | _ => true

/-- What was read has the property, or the text is at fault. -/
def Scans {α : Type} (Q : α → Prop) : Except Fault α → Prop
  | .ok a => Q a
  | .error fault => fault.isOfText = true

namespace Scans

variable {α β : Type} {Q : α → Prop} {R : β → Prop} {result : Except Fault α}

theorem bind {next : α → Except Fault β} (h : Scans Q result)
    (hnext : ∀ a, Q a → Scans R (next a)) : Scans R (result >>= next) := by
  cases result with
  | error fault => exact h
  | ok a => exact hnext a h

theorem map {f : α → β} (h : Scans Q result) (hf : ∀ a, Q a → R (f a)) :
    Scans R (result.map f) := by
  cases result with
  | error fault => exact h
  | ok a => exact hf a h

/-- A condition on both branches is one on the choice.  The conditions of a step hold texts, which
`split` would evaluate. -/
theorem ite {P : Prop} [Decidable P] {one other : Except Fault α} (hone : P → Scans Q one)
    (hother : ¬ P → Scans Q other) : Scans Q (if P then one else other) := by
  by_cases h : P
  · rw [if_pos h]
    exact hone h
  · rw [if_neg h]
    exact hother h

end Scans

/-! ### Line ends of a part of a text -/

namespace Literal

theorem newlinesOf_take_add (m n : Nat) (text : List Char) :
    newlinesOf (text.take (m + n)) =
      newlinesOf (text.take m) + newlinesOf ((text.drop m).take n) := by
  rw [take_add, newlinesOf_append]

/-- A line end is a blank. -/
theorem newlinesOf_of_not_isBlank {read : List Char} (h : ∀ c ∈ read, isBlank c = false) :
    newlinesOf read = 0 := by
  refine count_eq_zero.2 fun hmem => ?_
  have hnewline := h _ hmem
  cases hnewline

/-- A character that is no blank is no line end. -/
theorem newlinesOf_singleton {c : Char} (h : isBlank c = false) : newlinesOf [c] = 0 :=
  newlinesOf_of_not_isBlank (forall_mem_singleton.2 h)

theorem newlinesOf_of_beq_lineEnd {c : Char} (h : ¬ (c == '\n') = true) : newlinesOf [c] = 0 :=
  count_eq_zero.2 fun hmem => h (beq_iff_eq.2 (mem_singleton.1 hmem).symm)

/-- A run of characters of a class without the line end, and what is read behind it. -/
theorem newlinesOf_take_run {p : Char → Bool} (hp : p '\n' = false) (n : Nat) (text : List Char) :
    newlinesOf (text.take ((text.takeWhile p).length + n)) =
      newlinesOf ((text.drop (text.takeWhile p).length).take n) := by
  have hrun : newlinesOf (text.takeWhile p) = 0 := by
    refine count_eq_zero.2 fun hmem => ?_
    rw [mem_takeWhile_imp hmem] at hp
    cases hp
  rw [newlinesOf_take_add, take_length_of_isPrefix (List.takeWhile_prefix p), hrun, Nat.zero_add]

/-- The digits of a radix are on one line. -/
theorem newlinesOf_take_digitRun (radix most n : Nat) (text : List Char) :
    newlinesOf (text.take ((digitRun radix most text).length + n)) =
      newlinesOf ((text.drop (digitRun radix most text).length).take n) := by
  have hpart : digitRun radix most text <+: text :=
    (List.takeWhile_prefix _).trans (List.take_prefix _ _)
  have hrun : newlinesOf (digitRun radix most text) = 0 :=
    newlinesOf_of_not_isBlank fun c hc => isBlank_of_isDigitOf (mem_takeWhile_imp hc)
  rw [newlinesOf_take_add, take_length_of_isPrefix hpart, hrun, Nat.zero_add]

end Literal

/-- The extent counts the line ends that it passes. -/
def CountsLines (text : List Char) (extent : Extent) : Prop :=
  extent.newlines = newlinesOf (text.take extent.length)

/-- Two extents one behind the other. -/
theorem CountsLines.append {first other : Extent} (hfirst : CountsLines text first)
    (h : CountsLines (text.drop first.length) other) :
    CountsLines text ⟨first.length + other.length, first.newlines + other.newlines⟩ := by
  unfold CountsLines at hfirst h ⊢
  dsimp only
  rw [newlinesOf_take_add, ← hfirst, ← h]

/-- Line ends that are counted are passed, also where some are passed that are not counted. -/
theorem newlines_le_of_counts {extent : Extent} {hidden : Nat}
    (h : extent.newlines + hidden = newlinesOf (text.take extent.length)) :
    extent.newlines + newlinesOf (text.drop extent.length) ≤ newlinesOf text := by
  have hsplit := newlinesOf_take_add_drop extent.length text
  omega

theorem CountsLines.newlines_le {extent : Extent} (h : CountsLines text extent) :
    extent.newlines + newlinesOf (text.drop extent.length) ≤ newlinesOf text :=
  newlines_le_of_counts ((Nat.add_zero _).trans h)

/-! ### Escapes and code -/

theorem scans_codePoint (radix : Nat) (digits : List Char) :
    Scans (fun _ => True) (codePoint radix digits) := by
  by_cases hvalid : (Number.ofDigits radix digits).isValidChar
  · rw [codePoint, dif_pos hvalid]
    trivial
  · rw [codePoint, dif_neg hvalid]
    rfl

/-- No line end stands between the braces. -/
theorem scans_bracedCodePoints (seen : Bool) (text : List Char) :
    Scans (fun found => newlinesOf (text.take found.2) = 0) (bracedCodePoints seen text) := by
  -- one code point after the other, each with the blanks before it
  induction seen, text using bracedCodePoints.induct with
  | case1 seen text blanks rest hclosed =>
    rw [bracedCodePoints, if_pos hclosed]
    simp only [Bool.and_eq_true, beq_iff_eq] at hclosed
    obtain ⟨tail, htail⟩ := head?_eq_some_iff.1 hclosed.2
    change newlinesOf (text.take ((text.takeWhile (· == ' ')).length + 1)) = 0
    rw [newlinesOf_take_run (p := (· == ' ')) rfl]
    change newlinesOf (rest.take 1) = 0
    rw [htail]
    rfl
  | case2 seen text blanks rest hopen digits hdigits =>
    rw [bracedCodePoints, if_neg hopen, if_pos hdigits]
    rfl
  | case3 seen text blanks rest hopen digits hdigits ih =>
    rw [bracedCodePoints, if_neg hopen, if_neg hdigits]
    refine (scans_codePoint 16 digits).bind fun _ _ => ih.bind fun found hfound => ?_
    change newlinesOf (text.take ((text.takeWhile (· == ' ')).length + digits.length +
      found.2)) = 0
    rw [Nat.add_assoc, newlinesOf_take_run (p := (· == ' ')) rfl]
    change newlinesOf (rest.take ((digitRun 16 6 rest).length + found.2)) = 0
    rw [newlinesOf_take_digitRun]
    exact hfound

/-- An escape has at least one character, and only the first of them may be a line end. -/
theorem scans_decodeEscape (text : List Char) :
    Scans (fun found => 0 < found.2 ∧ newlinesOf (text.take found.2) = newlinesOf (text.take 1))
      (decodeEscape text) := by
  cases text with
  | nil => rfl
  | cons c rest =>
    -- digits are on one line
    have hrun : ∀ radix most (text : List Char),
        newlinesOf (text.take (digitRun radix most text).length) = 0 := by
      intro radix most text
      have hnone := newlinesOf_take_digitRun radix most 0 text
      rwa [Nat.add_zero, take_zero] at hnone
    have hdigits : ∀ radix most,
        newlinesOf ((c :: rest).take (1 + (digitRun radix most rest).length)) =
          newlinesOf ((c :: rest).take 1) := by
      intro radix most
      rw [newlinesOf_take_add]
      exact congrArg (newlinesOf ((c :: rest).take 1) + ·) (hrun radix most rest)
    unfold decodeEscape
    dsimp only
    split
    · exact ⟨Nat.one_pos, rfl⟩
    refine .ite (fun _ => ⟨Nat.one_pos, rfl⟩) fun hnewline => ?_
    -- an octal escape starts with its first digit, which is no line end
    refine .ite (fun hoctal => ?_) fun _ => ?_
    · have hpos : 0 < (digitRun 8 3 (c :: rest)).length := by
        rw [digitRun, take_succ_cons, takeWhile_cons_of_pos hoctal]
        exact Nat.succ_pos _
      exact (scans_codePoint 8 _).bind fun _ _ =>
        ⟨hpos, (hrun 8 3 _).trans (newlinesOf_of_beq_lineEnd hnewline).symm⟩
    -- behind an `x` are two digits at most, behind a `u` code points in braces or four digits
    refine .ite (fun _ => ?_) fun _ => .ite (fun _ => ?_) fun _ => ⟨Nat.one_pos, rfl⟩
    · exact .ite (fun _ => rfl) fun _ => (scans_codePoint 16 _).bind fun _ _ =>
        ⟨Nat.add_pos_left Nat.one_pos _, hdigits 16 2⟩
    refine .ite (fun hbrace => ?_) fun _ => .ite (fun _ => rfl) fun hlength => ?_
    · obtain ⟨tail, rfl⟩ := head?_eq_some_iff.1 (eq_of_beq hbrace)
      refine (scans_bracedCodePoints false tail).bind fun found hfound =>
        ⟨Nat.add_pos_left Nat.two_pos _, ?_⟩
      change newlinesOf ((c :: '{' :: tail).take (2 + found.2)) = newlinesOf [c]
      rw [newlinesOf_take_add]
      change newlinesOf [c, '{'] + newlinesOf (tail.take found.2) = newlinesOf [c]
      rw [hfound, newlinesOf_cons]
      rfl
    · refine (scans_codePoint 16 _).bind fun _ _ => ⟨Nat.succ_pos 4, ?_⟩
      have hfour : (digitRun 16 4 rest).length = 4 := by simpa using hlength
      have hcount := hdigits 16 4
      rw [hfour] at hcount
      exact hcount

theorem closingBraceFrom_plain (depth : Nat) (c : Char) (rest : List Char) :
    closingBraceFrom (.plain depth) (c :: rest) =
      if c == '{' then (closingBraceFrom (.plain (depth + 1)) rest).map (· + 1)
      else if c == '}' then
        match depth with
        | 0 => some 0
        | depth + 1 => (closingBraceFrom (.plain depth) rest).map (· + 1)
      else if c == '"' || c == '\'' then (closingBraceFrom (.inQuotes c depth) rest).map (· + 1)
      else (closingBraceFrom (.plain depth) rest).map (· + 1) := by
  cases depth <;> exact closingBraceFrom.eq_def _ _

/-- The code of an interpolation ends at a brace. -/
theorem getElem?_closingBraceFrom {place : CodePlace} {length : Nat}
    (h : closingBraceFrom place text = some length) : text[length]? = some '}' := by
  induction text generalizing place length with
  | nil =>
    rw [closingBraceFrom] at h
    cases h
  | cons c rest ih =>
    -- the brace is one character further than for the rest, whatever the place there is
    have hstep : ∀ next, (closingBraceFrom next rest).map (· + 1) = some length →
        (c :: rest)[length]? = some '}' := by
      intro next hnext
      obtain ⟨n, hn, rfl⟩ := Option.map_eq_some_iff.1 hnext
      exact ih hn
    cases place with
    | escaped quote depth => exact hstep _ h
    | inQuotes quote depth => exact hstep _ h
    | plain depth =>
      rw [closingBraceFrom_plain] at h
      split at h
      · exact hstep _ h
      · split at h
        next hbrace =>
          cases depth with
          | zero =>
            cases h
            exact congrArg some (eq_of_beq hbrace)
          | succ depth => exact hstep _ h
        · split at h
          · exact hstep _ h
          · exact hstep _ h

/-- The brace is inside the text. -/
theorem closingBraceFrom_lt {place : CodePlace} {length : Nat}
    (h : closingBraceFrom place text = some length) : length < text.length :=
  (List.getElem?_eq_some_iff.1 (getElem?_closingBraceFrom h)).1

/-! ### Pieces -/

/-- How much there is to read in a piece of a string body. -/
def Piece.weight : Literal.Piece → Nat
  | .char _ => 0
  | .code source _ => source.length + 2

/-- How much there is to read in some pieces. -/
def piecesWeight (pieces : List Literal.Piece) : Nat := pieces.foldr (Piece.weight · + ·) 0

theorem piecesWeight_cons (piece : Literal.Piece) (pieces : List Literal.Piece) :
    piecesWeight (piece :: pieces) = Piece.weight piece + piecesWeight pieces := rfl

theorem piecesWeight_append (pieces others : List Literal.Piece) :
    piecesWeight (pieces ++ others) = piecesWeight pieces + piecesWeight others := by
  induction pieces with
  | nil => exact (Nat.zero_add _).symm
  | cons piece pieces ih =>
    rw [cons_append, piecesWeight_cons, ih, piecesWeight_cons, Nat.add_assoc]

theorem piecesWeight_map_char (decoded : List Char) : piecesWeight (decoded.map .char) = 0 := by
  induction decoded with
  | nil => rfl
  | cons c decoded ih => exact (Nat.zero_add _).trans ih

/-- The pieces that a string body starts with, if it is not closed there, and their extent: a
character, an escape or code. -/
def firstPieces (close : Option Char) (interpolated : Bool) (line : Nat) (c : Char)
    (rest : List Char) : Except Fault (List Piece × Extent) :=
  if c == '\\' then
    match rest.head? with
    | none => .error .unterminatedEscape
    | some next =>
      if interpolated then do
        let (decoded, length) ← decodeEscape rest
        .ok (decoded.map .char, ⟨1 + length, newlinesOf [next]⟩)
      else
        let kept := if next == '\\' || some next == close then [next] else ['\\', next]
        .ok (kept.map .char, ⟨2, newlinesOf [next]⟩)
  else if interpolated && c == '#' && rest.head? == some '{' then
    match closingBrace (rest.drop 1) with
    | none => .error .unterminatedInterpolation
    | some length =>
      let source := (rest.drop 1).take length
      .ok ([.code (String.ofList source) line], ⟨length + 3, newlinesOf source⟩)
  else .ok ([.char c], ⟨1, newlinesOf [c]⟩)

/-- A string body goes on behind its first pieces. -/
theorem scanPieces_cons {close : Option Char} (interpolated : Bool) (line : Nat) {c : Char}
    (rest : List Char) (h : ¬ (some c == close) = true) :
    scanPieces close interpolated line (c :: rest) =
      firstPieces close interpolated line c rest >>= fun first =>
        scanPieces close interpolated (line + first.2.newlines)
          ((c :: rest).drop first.2.length) >>= fun found =>
            .ok (first.1 ++ found.1,
              ⟨first.2.length + found.2.length, first.2.newlines + found.2.newlines⟩) := by
  -- the two branch alike; an escape adds its lengths in the other order
  rw [scanPieces, if_neg h, firstPieces]
  split
  · cases rest.head? with
    | none => rfl
    | some next =>
      cases interpolated with
      | true =>
        dsimp only
        rw [if_pos rfl, if_pos rfl]
        cases decodeEscape rest with
        | error fault => rfl
        | ok decoded =>
          dsimp only [bind, Except.bind]
          rw [Nat.add_comm 1, drop_succ_cons]
      | false => rfl
  · split
    · cases closingBrace (rest.drop 1) with
      | none => rfl
      | some length => rfl
    · rfl

/-- What is read of a string body, up to the character that closes it or up to where the next pieces
start.  The line ends that are passed are counted, but for that of a closing line end; the code lies
on the lines that are passed; and there is no more to read in the pieces than in their text, and
than in what the text has more than what is left of it. -/
structure PiecesRead (close : Option Char) (line : Nat) (text : List Char)
    (found : List Piece × Extent) : Prop where
  counts : found.2.newlines + newlinesOf close.toList = newlinesOf (text.take found.2.length)
  codes_le : ∀ source codeLine, .code source codeLine ∈ found.1 →
    codeLine + newlinesOf source.toList ≤ line + found.2.newlines
  weight_le : piecesWeight found.1 ≤ found.2.length
  weight_le_text : piecesWeight found.1 + (text.drop found.2.length).length ≤ text.length

/-- There is nothing to read in pieces without code. -/
theorem piecesRead_char {close : Option Char} (line : Nat) {extent : Extent} (decoded : List Char)
    (h : extent.newlines + newlinesOf close.toList = newlinesOf (text.take extent.length)) :
    PiecesRead close line text (decoded.map .char, extent) := by
  refine ⟨h, fun source codeLine hcode => ?_, ?_, ?_⟩
  · simp at hcode
  · rw [piecesWeight_map_char]
    exact Nat.zero_le _
  · rw [piecesWeight_map_char, Nat.zero_add, length_drop]
    exact Nat.sub_le _ _

/-- Pieces in front of others. -/
theorem PiecesRead.append {close : Option Char} {line : Nat} {first found : List Piece × Extent}
    (hfirst : PiecesRead none line text first)
    (h : PiecesRead close (line + first.2.newlines) (text.drop first.2.length) found) :
    PiecesRead close line text (first.1 ++ found.1,
      ⟨first.2.length + found.2.length, first.2.newlines + found.2.newlines⟩) where
  counts := by
    have hbefore : first.2.newlines = _ := hfirst.counts
    have hbehind := h.counts
    dsimp only
    rw [newlinesOf_take_add]
    omega
  codes_le source codeLine hcode := by
    dsimp only
    rcases mem_append.1 hcode with hcode | hcode
    · have := hfirst.codes_le source codeLine hcode
      omega
    · have := h.codes_le source codeLine hcode
      omega
  weight_le := by
    have hbefore := hfirst.weight_le
    have hbehind := h.weight_le
    dsimp only
    rw [piecesWeight_append]
    omega
  weight_le_text := by
    have hbefore := hfirst.weight_le_text
    have hbehind := h.weight_le_text
    rw [drop_drop] at hbehind
    dsimp only
    rw [piecesWeight_append]
    omega

/-- The code of an interpolation is shorter than the interpolation by its marks. -/
theorem piecesRead_code {line length : Nat} {tail : List Char}
    (h : closingBrace tail = some length) :
    PiecesRead none line ('#' :: '{' :: tail)
      ([.code (String.ofList (tail.take length)) line],
        ⟨length + 3, newlinesOf (tail.take length)⟩) := by
  have hlast : tail[length]? = some '}' := getElem?_closingBraceFrom h
  have hlt : length < tail.length := closingBraceFrom_lt h
  have hweight : piecesWeight [.code (String.ofList (tail.take length)) line] = length + 2 := by
    change (String.ofList _).length + 2 + 0 = _
    rw [String.length_ofList, length_take]
    omega
  -- its lines, the lines of the code, and its weight twice
  refine ⟨?_, fun source codeLine hcode => ?_, ?_, ?_⟩
  · change newlinesOf (tail.take length) = newlinesOf (tail.take (length + 1)) + 0 + 0
    rw [take_add_one, hlast, newlinesOf_append]
    rfl
  · cases mem_singleton.1 hcode
    rw [String.toList_ofList]
  · rw [hweight]
    exact Nat.le_succ _
  · dsimp only
    rw [hweight, length_drop, length_cons, length_cons]
    omega

/-- The first pieces have at least one character. -/
theorem scans_firstPieces (close : Option Char) (interpolated : Bool) (line : Nat) (c : Char)
    (rest : List Char) :
    Scans (fun first => 0 < first.2.length ∧ PiecesRead none line (c :: rest) first)
      (firstPieces close interpolated line c rest) := by
  unfold firstPieces
  refine .ite (fun hescape => ?_) fun _ => .ite (fun hcode => ?_) fun _ =>
    ⟨Nat.one_pos, piecesRead_char line [c] rfl⟩
  · cases eq_of_beq hescape
    cases hnext : rest.head? with
    | none => rfl
    | some next =>
      obtain ⟨tail, rfl⟩ := head?_eq_some_iff.1 hnext
      refine .ite (fun _ => ?_) fun _ => ⟨Nat.two_pos, piecesRead_char line _ ?_⟩
      · refine (scans_decodeEscape _).bind fun decoded hdecoded =>
          ⟨Nat.add_pos_left Nat.one_pos _, piecesRead_char line _ ?_⟩
        dsimp only
        rw [newlinesOf_take_add]
        exact hdecoded.2.symm.trans (Nat.zero_add _).symm
      · change newlinesOf [next] = newlinesOf ['\\', next]
        rw [newlinesOf_cons '\\']
        exact (Nat.zero_add _).symm
  -- code, up to the brace that closes it
  · simp only [Bool.and_eq_true, beq_iff_eq] at hcode
    obtain ⟨⟨-, rfl⟩, hbrace⟩ := hcode
    obtain ⟨tail, rfl⟩ := head?_eq_some_iff.1 hbrace
    cases hclose : closingBrace (('{' :: tail).drop 1) with
    | none => rfl
    | some length => exact ⟨Nat.succ_pos _, piecesRead_code hclose⟩

/-- What is read of a string body ends with the character that closes it. -/
structure BodyPiecesRead (close : Option Char) (line : Nat) (text : List Char)
    (found : List Piece × Extent) : Prop extends PiecesRead close line text found where
  closed : ∀ c ∈ close, ∃ n, found.2.length = n + 1 ∧ text[n]? = some c

/-- By induction on the text: a first piece, then those behind it. -/
theorem scans_scanPieces (close : Option Char) (interpolated : Bool) (line : Nat)
    (text : List Char) :
    Scans (BodyPiecesRead close line text) (scanPieces close interpolated line text) := by
  -- on the length, since an escape or code takes several characters at once
  induction hlength : text.length using Nat.strong_induction_on generalizing line text with
  | h length ih =>
    cases text with
    | nil =>
      rw [scanPieces]
      cases close with
      | none => exact ⟨piecesRead_char line [] rfl, by simp⟩
      | some c => rfl
    | cons c rest =>
      by_cases hclose : (some c == close) = true
      · rw [scanPieces, if_pos hclose]
        cases eq_of_beq hclose
        refine ⟨piecesRead_char line [] (Nat.zero_add _), ?_⟩
        rintro d ⟨⟩
        exact ⟨0, rfl, rfl⟩
      · rw [scanPieces_cons interpolated line rest hclose]
        refine (scans_firstPieces close interpolated line c rest).bind fun first hfirst => ?_
        refine (ih _ ?_ _ _ rfl).bind fun found hfound => ?_
        · have hpos := hfirst.1
          rw [← hlength, length_drop, length_cons]
          omega
        · refine ⟨hfirst.2.append hfound.toPiecesRead, fun d hd => ?_⟩
          obtain ⟨n, hn, hlast⟩ := hfound.closed d hd
          rw [getElem?_drop] at hlast
          exact ⟨first.2.length + n, by rw [hn, Nat.add_assoc], hlast⟩

/-! ### Parts -/

/-- The part is text, and not code. -/
def StringPart.isText : StringPart → Bool
  | .text _ => true
  | .code _ _ => false

/-- The parts of a string as they are read. -/
structure PartsJoined (parts : List StringPart) : Prop where
  ne_nil : parts ≠ []
  /-- Between two texts there is code. -/
  divided : parts.IsChain fun part next => ¬ (part.isText = true ∧ next.isText = true)
  /-- An empty text is the only part. -/
  only : ∀ part ∈ parts, part.isEmptyText = true → parts = [part]

/-- All code among the parts ends on the given line or before. -/
def CodesFit (last : Nat) (parts : List StringPart) : Prop :=
  ∀ source line, .code source line ∈ parts → line + newlinesOf source.toList ≤ last

theorem codesFit_nil (last : Nat) : CodesFit last [] := fun _ _ h => by cases h

/-- How much there is to read in the parts of a string. -/
def partsWeight (parts : List StringPart) : Nat := parts.foldr (·.weight + ·) 0

theorem partsWeight_cons (part : StringPart) (parts : List StringPart) :
    partsWeight (part :: parts) = part.weight + partsWeight parts := rfl

theorem partsWeight_joinAfter (pending : List Char) (pieces : List Literal.Piece) :
    partsWeight (joinAfter pending pieces) = piecesWeight pieces := by
  induction pieces generalizing pending with
  | nil =>
    rw [joinAfter]
    split <;> rfl
  | cons piece pieces ih =>
    cases piece with
    | char c => exact (ih _).trans (Nat.zero_add _).symm
    | code source line =>
      rw [joinAfter]
      split
      · exact congrArg (_ + ·) (ih [])
      · exact (Nat.zero_add _).trans (congrArg (_ + ·) (ih []))

theorem partsWeight_joinPieces (pieces : List Literal.Piece) :
    partsWeight (joinPieces pieces) = piecesWeight pieces := by
  unfold joinPieces
  split
  next hempty =>
    rw [List.isEmpty_iff.1 hempty]
    rfl
  · exact partsWeight_joinAfter [] pieces

/-- Joining makes no code. -/
theorem mem_of_mem_joinAfter {pending : List Char} {pieces : List Piece} {source : String}
    {line : Nat} (h : .code source line ∈ joinAfter pending pieces) :
    .code source line ∈ pieces := by
  induction pieces generalizing pending with
  | nil =>
    rw [joinAfter] at h
    split at h
    · cases h
    · cases mem_singleton.1 h
  | cons piece pieces ih =>
    cases piece with
    | char c => exact mem_cons_of_mem _ (ih h)
    -- the text before the code is a part of its own, if there is any
    | code source' line' =>
      rw [joinAfter] at h
      split at h
      · rcases mem_cons.1 h with h | h
        · cases h
          exact mem_cons_self
        · exact mem_cons_of_mem _ (ih h)
      · rcases mem_cons.1 h with h | h
        · cases h
        · rcases mem_cons.1 h with h | h
          · cases h
            exact mem_cons_self
          · exact mem_cons_of_mem _ (ih h)

theorem mem_of_mem_joinPieces {pieces : List Piece} {source : String} {line : Nat}
    (h : .code source line ∈ joinPieces pieces) : .code source line ∈ pieces := by
  unfold joinPieces at h
  split at h
  · cases mem_singleton.1 h
  · exact mem_of_mem_joinAfter h

/-- Behind code any part may stand. -/
theorem isChain_code (source : String) (line : Nat) {parts : List StringPart}
    (h : parts.IsChain fun part next => ¬ (part.isText = true ∧ next.isText = true)) :
    (StringPart.code source line :: parts).IsChain
      fun part next => ¬ (part.isText = true ∧ next.isText = true) :=
  h.cons fun _ _ htexts => Bool.false_ne_true htexts.1

/-- Texts that are gathered from characters are not empty, and code is between them. -/
theorem joinAfter_spec (pending : List Char) (pieces : List Piece) :
    (joinAfter pending pieces).IsChain
        (fun part next => ¬ (part.isText = true ∧ next.isText = true)) ∧
      (∀ part ∈ joinAfter pending pieces, part.isEmptyText = false) ∧
      (pending ≠ [] ∨ pieces ≠ [] → joinAfter pending pieces ≠ []) := by
  -- the characters that wait make a text with characters
  have htext : ∀ {pending : List Char}, pending.isEmpty = false →
      (StringPart.text (String.ofList pending.reverse)).isEmptyText = false := by
    intro pending hpending
    have hne : pending ≠ [] := fun h => by rw [h] at hpending; cases hpending
    simpa [StringPart.isEmptyText] using hne
  induction pieces generalizing pending with
  | nil =>
    rw [joinAfter]
    cases hpending : pending.isEmpty with
    | true =>
      refine ⟨.nil, by simp, ?_⟩
      rintro (h | h)
      · exact absurd (List.isEmpty_iff.1 hpending) h
      · exact absurd rfl h
    | false =>
      refine ⟨.singleton _, ?_, fun _ => cons_ne_nil _ _⟩
      exact forall_mem_singleton.2 (htext hpending)
  | cons piece pieces ih =>
    cases piece with
    | char c =>
      obtain ⟨hchain, hfull, hne⟩ := ih (c :: pending)
      exact ⟨hchain, hfull, fun _ => hne (.inl (cons_ne_nil _ _))⟩
    | code source line =>
      obtain ⟨hchain, hfull, -⟩ := ih []
      have hcode := isChain_code source line hchain
      rw [joinAfter]
      cases hpending : pending.isEmpty with
      | true =>
        exact ⟨hcode, forall_mem_cons.2 ⟨rfl, hfull⟩, fun _ => cons_ne_nil _ _⟩
      | false =>
        refine ⟨.cons_cons (fun htexts => Bool.false_ne_true htexts.2) hcode, ?_,
          fun _ => cons_ne_nil _ _⟩
        exact forall_mem_cons.2 ⟨htext hpending, forall_mem_cons.2 ⟨rfl, hfull⟩⟩

theorem partsJoined_text (content : String) : PartsJoined [.text content] :=
  ⟨cons_ne_nil _ _, .singleton _, forall_mem_singleton.2 fun _ => rfl⟩

theorem partsJoined_of_full {parts : List StringPart} (hne : parts ≠ [])
    (hdivided : parts.IsChain fun part next => ¬ (part.isText = true ∧ next.isText = true))
    (hfull : ∀ part ∈ parts, part.isEmptyText = false) : PartsJoined parts :=
  ⟨hne, hdivided, fun part hpart hempty => absurd hempty (Bool.eq_false_iff.1 (hfull part hpart))⟩

/-- Joined pieces are never two texts side by side. -/
theorem partsJoined_joinPieces (pieces : List Piece) : PartsJoined (joinPieces pieces) := by
  unfold joinPieces
  cases pieces with
  | nil => exact partsJoined_text ""
  | cons piece pieces =>
    obtain ⟨hchain, hfull, hne⟩ := joinAfter_spec [] (piece :: pieces)
    exact partsJoined_of_full (hne (.inr (cons_ne_nil _ _))) hchain hfull

/-- What is read of a string body, as `BodyPiecesRead` says it of the pieces. -/
structure BodyRead (close : Option Char) (line : Nat) (text : List Char)
    (found : List StringPart × Extent) : Prop where
  closed : ∀ c ∈ close, ∃ n, found.2.length = n + 1 ∧ text[n]? = some c
  counts : found.2.newlines + newlinesOf close.toList = newlinesOf (text.take found.2.length)
  joined : PartsJoined found.1
  codes : CodesFit (line + found.2.newlines) found.1
  weight_le : partsWeight found.1 ≤ found.2.length
  weight_le_text : partsWeight found.1 ≤ text.length

/-- The parts of a body are its pieces, joined. -/
theorem scans_scanBody (close : Option Char) (interpolated : Bool) (line : Nat)
    (text : List Char) :
    Scans (BodyRead close line text) (scanBody close interpolated line text) := by
  refine (scans_scanPieces close interpolated line text).bind fun found hfound => ?_
  have hweight := partsWeight_joinPieces found.1
  refine ⟨hfound.closed, hfound.counts, partsJoined_joinPieces found.1,
    fun source codeLine hcode => hfound.codes_le source codeLine (mem_of_mem_joinPieces hcode),
    ?_, ?_⟩
  · exact Nat.le_trans (Nat.le_of_eq hweight) hfound.weight_le
  · have hle := hfound.weight_le_text
    dsimp only
    omega

end LaneScript
