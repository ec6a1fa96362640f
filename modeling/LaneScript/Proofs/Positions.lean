import LaneScript.Proofs.TextReading

/-!
# Reading by positions

A text can also be read as a buffer, with a position in it in place of the text that remains.  Such
a reading could leave the buffer: it asks for the character at a position, or for the characters
between two positions, and it counts lines in a number of limited size.  Here each of these
operations is checked, and ends the reading with a `Stop.breach` where it is out of range.

To look ahead from a position needs no check: `text[i]?` is none behind the end.

The readings by positions have the names of the functions they belong to, and each has an equation
of one shape: at `pos` it does what the other one does with `text.drop pos`, and so it never ends
with a breach (`safely` adds nothing but the type of the outcome).  The premises of these equations
are what has to hold where a reading starts: that the position is one of the buffer, and that the
lines of the text that remains can be counted.  A reading that goes round in a loop has a number of
rounds, and would end with a breach too if it used them up.
-/

namespace LaneScript.Positions

open Literal
open List

variable {text : List Char} {pos : Nat}

/-- Why a checked reading ends early. -/
inductive Stop (ε : Type) where
  /-- An operation was out of range. -/
  | breach
  /-- The text is at fault. -/
  | fault (error : ε)
  deriving DecidableEq, Repr

/-- The outcome of a checked reading. -/
abbrev Checked (ε α : Type) := Except (Stop ε) α

variable {ε α β : Type}

/-- An outcome without a breach. -/
def safely (result : Except ε α) : Checked ε α := result.mapError .fault

@[simp] theorem safely_ok (a : α) : safely (.ok a : Except ε α) = .ok a := rfl

/-- A choice is without a breach if both branches are. -/
theorem ite_eq_safely {P : Prop} [Decidable P] {one other : Checked ε α} {one' other' : Except ε α}
    (hone : P → one = safely one') (hother : ¬ P → other = safely other') :
    (if P then one else other) = safely (if P then one' else other') := by
  by_cases h : P
  · rw [if_pos h, if_pos h, hone h]
  · rw [if_neg h, if_neg h, hother h]

/-- The same with conditions that only agree, and with a result in another form. -/
theorem ite_eq_safely_map {P Q : Prop} [Decidable P] [Decidable Q] {f : α → β}
    {one other : Checked ε β} {one' other' : Except ε α} (hiff : P ↔ Q)
    (hone : P → one = safely (one'.map f)) (hother : ¬ P → other = safely (other'.map f)) :
    (if P then one else other) = safely ((if Q then one' else other').map f) := by
  by_cases h : P
  · rw [if_pos h, if_pos (hiff.1 h), hone h]
  · rw [if_neg h, if_neg (mt hiff.2 h), hother h]

/-- The text from a character on is the character and what stands behind it. -/
theorem drop_eq_cons {c : Char} (h : text[pos]? = some c) :
    text.drop pos = c :: text.drop (pos + 1) := by
  obtain ⟨hlt, rfl⟩ := List.getElem?_eq_some_iff.1 h
  exact drop_eq_getElem_cons hlt

/-! ### Checked operations -/

/-- The character at a position. -/
def charAt (text : List Char) (pos : Nat) : Checked ε Char :=
  match text[pos]? with
  | some c => .ok c
  | none => .error .breach

/-- The characters from one position to another. -/
def slice (text : List Char) (first last : Nat) : Checked ε (List Char) :=
  if first ≤ last ∧ last ≤ text.length then .ok ((text.drop first).take (last - first))
  else .error .breach

/-- A count that goes down by one. -/
def countDown : Nat → Checked ε Nat
  | 0 => .error .breach
  | count + 1 => .ok count

/-- Line numbers are below this bound. -/
def lineBound : Nat := Nat.pow 2 32

/-- A line number some lines further on. -/
def addLines (line count : Nat) : Checked ε Nat :=
  if line + count < lineBound then .ok (line + count) else .error .breach

theorem charAt_eq {c : Char} (h : text[pos]? = some c) :
    charAt text pos = (.ok c : Checked ε Char) := by
  rw [charAt, h]

theorem addLines_eq {line count : Nat} (h : line + count < lineBound) :
    addLines line count = (.ok (line + count) : Checked ε Nat) :=
  if_pos h

/-- What stands at a position is the slice from there on that has its length. -/
theorem slice_eq {text read : List Char} {first : Nat} (hfirst : first ≤ text.length)
    (h : read <+: text.drop first) :
    slice text first (first + read.length) = (.ok read : Checked ε (List Char)) := by
  have hlength := h.length_le
  rw [length_drop] at hlength
  rw [slice, if_pos ⟨Nat.le_add_right _ _, by omega⟩, Nat.add_sub_cancel_left,
    take_length_of_isPrefix h]

theorem slice_take {first length : Nat} (h : first + length ≤ text.length) :
    slice text first (first + length) =
      (.ok ((text.drop first).take length) : Checked ε (List Char)) := by
  rw [slice, if_pos ⟨Nat.le_add_right _ _, h⟩, Nat.add_sub_cancel_left]

theorem slice_to_end {first : Nat} (h : first ≤ text.length) :
    slice text first text.length = (.ok (text.drop first) : Checked ε (List Char)) := by
  rw [slice, if_pos ⟨h, Nat.le_refl _⟩, ← length_drop, take_length]

/-! ### Runs -/

/-- The first position from the given one on where the class of characters ends, or the end of the
buffer. -/
def runWhile (p : Char → Bool) (text : List Char) (pos : Nat) : Nat :=
  if h : pos < text.length then if p text[pos] then runWhile p text (pos + 1) else pos
  else pos
termination_by text.length - pos

theorem runWhile_eq (p : Char → Bool) (text : List Char) (pos : Nat) :
    runWhile p text pos = pos + ((text.drop pos).takeWhile p).length := by
  induction pos using runWhile.induct p text with
  | case1 pos h hp ih =>
    rw [runWhile, dif_pos h, if_pos hp, ih, drop_eq_getElem_cons h,
      takeWhile_cons_of_pos hp, length_cons]
    omega
  | case2 pos h hp =>
    rw [runWhile, dif_pos h, if_neg hp, drop_eq_getElem_cons h, takeWhile_cons_of_neg hp]
    rfl
  | case3 pos h =>
    rw [runWhile, dif_neg h, drop_eq_nil_of_le (Nat.le_of_not_lt h)]
    rfl

theorem runWhile_le (p : Char → Bool) (h : pos ≤ text.length) :
    runWhile p text pos ≤ text.length := by
  have hlength := (List.takeWhile_prefix p (l := text.drop pos)).length_le
  rw [length_drop] at hlength
  rw [runWhile_eq]
  omega

/-- The characters of a run. -/
theorem slice_runWhile (p : Char → Bool) (h : pos ≤ text.length) :
    slice text pos (runWhile p text pos) =
      (.ok ((text.drop pos).takeWhile p) : Checked ε (List Char)) := by
  rw [runWhile_eq]
  exact slice_eq h (List.takeWhile_prefix p)

/-! ### Escapes -/

/-- How many digits of the radix stand at a position, `most` of them at most. -/
def digitCount (radix most : Nat) (text : List Char) (pos : Nat) : Checked Fault Nat := do
  let rest ← slice text pos text.length
  return (digitRun radix most rest).length

/-- The code points between the braces of an escape.  There are no more rounds than the buffer has
characters. -/
def bracedCodePoints (text : List Char) (seen : Bool) (rounds pos : Nat) :
    Checked Fault (List Char × Nat) :=
  match rounds with
  | 0 => .error .breach
  | rounds + 1 => do
    let first := runWhile (· == ' ') text pos
    if seen && text[first]? == some '}' then return ([], first + 1)
    else
      let count ← digitCount 16 6 text first
      if count = 0 then .error (.fault .invalidUnicodeEscape)
      else
        let c ← safely (codePoint 16 (← slice text first (first + count)))
        let (more, last) ← bracedCodePoints text true rounds (first + count)
        return (c :: more, last)

/-- The characters of an escape behind its backslash, and the number of characters of its text. -/
def decodeEscape (text : List Char) : Checked Fault (List Char × Nat) :=
  match text[0]? with
  | none => .error (.fault .unterminatedEscape)
  | some c =>
    match letterEscape? c with
    | some decoded => .ok ([decoded], 1)
    | none =>
      if c == '\n' then .ok ([], 1)
      else if Number.isDigitOf 8 c then do
        let count := (digitRun 8 3 text).length
        let decoded ← safely (codePoint 8 (← slice text 0 count))
        return ([decoded], count)
      else if c == 'x' then do
        let count ← digitCount 16 2 text 1
        if count = 0 then .error (.fault .invalidHexEscape)
        else
          let decoded ← safely (codePoint 16 (← slice text 1 (1 + count)))
          return ([decoded], 1 + count)
      else if c == 'u' then
        if text[1]? == some '{' then bracedCodePoints text false (text.length + 1) 2
        else do
          let count ← digitCount 16 4 text 1
          if count != 4 then .error (.fault .invalidUnicodeEscape)
          else
            let decoded ← safely (codePoint 16 (← slice text 1 5))
            return ([decoded], 5)
      else .ok ([c], 1)

theorem digitCount_eq {radix most : Nat} (h : pos ≤ text.length) :
    digitCount radix most text pos = .ok (digitRun radix most (text.drop pos)).length := by
  rw [digitCount, slice_to_end h]
  rfl

theorem prefix_digitRun (radix most : Nat) (text : List Char) : digitRun radix most text <+: text :=
  (List.takeWhile_prefix _).trans (List.take_prefix _ _)

theorem slice_digitRun (radix most : Nat) (h : pos ≤ text.length) :
    slice text pos (pos + (digitRun radix most (text.drop pos)).length) =
      (.ok (digitRun radix most (text.drop pos)) : Checked ε (List Char)) :=
  slice_eq h (prefix_digitRun radix most _)

/-- The code points at a position are those of the text that remains there. -/
theorem bracedCodePoints_eq {seen : Bool} {rounds pos : Nat} (hpos : pos ≤ text.length)
    (hrounds : text.length - pos < rounds) :
    bracedCodePoints text seen rounds pos =
      safely ((Literal.bracedCodePoints seen (text.drop pos)).map
        fun found => (found.1, pos + found.2)) := by
  induction rounds generalizing seen pos with
  | zero => omega
  | succ rounds ih =>
    rw [bracedCodePoints, Literal.bracedCodePoints]
    have hblanks := (List.takeWhile_prefix (· == ' ') (l := text.drop pos)).length_le
    rw [length_drop] at hblanks
    rw [runWhile_eq]
    generalize ((text.drop pos).takeWhile (· == ' ')).length = blanks at *
    have hfirst : pos + blanks ≤ text.length := by omega
    dsimp only
    rw [drop_drop, head?_drop]
    by_cases hclosed : (seen && text[pos + blanks]? == some '}') = true
    · rw [if_pos hclosed, if_pos hclosed]
      rfl
    rw [if_neg hclosed, if_neg hclosed, digitCount_eq hfirst]
    -- the digits are among those that remain, so the slice of them is in range
    have hdigits := (prefix_digitRun 16 6 (text.drop (pos + blanks))).length_le
    have hslice : slice text (pos + blanks) _ = (.ok _ : Checked Fault _) :=
      slice_digitRun 16 6 hfirst
    rw [length_drop] at hdigits
    generalize digitRun 16 6 (text.drop (pos + blanks)) = digits at *
    by_cases hnone : digits.length = 0
    · rw [if_pos hnone]
      simp only [hnone]
      rfl
    rw [if_neg hnone]
    dsimp only [bind, Except.bind]
    rw [if_neg hnone, hslice]
    dsimp only
    cases codePoint 16 digits with
    | error fault => rfl
    | ok c =>
      rw [safely_ok, drop_drop, ih (by omega) (by omega)]
      dsimp only
      cases Literal.bracedCodePoints true (text.drop (pos + blanks + digits.length)) with
      | error fault => rfl
      | ok found => simp [Except.map, Nat.add_assoc]; rfl

theorem decodeEscape_eq (text : List Char) :
    decodeEscape text = safely (Literal.decodeEscape text) := by
  cases text with
  | nil => rfl
  | cons c rest =>
    have hone : 1 ≤ (c :: rest).length := Nat.succ_le_succ (Nat.zero_le _)
    have hslice : ∀ most, slice (c :: rest) 1 (1 + (digitRun 16 most rest).length) =
        (.ok (digitRun 16 most rest) : Checked Fault _) := fun most => slice_digitRun 16 most hone
    rw [decodeEscape, Literal.decodeEscape]
    simp only [getElem?_cons_zero]
    cases letterEscape? c with
    | some decoded => rfl
    | none =>
      refine ite_eq_safely (fun _ => rfl) fun _ => ite_eq_safely (fun _ => ?_) fun _ =>
        ite_eq_safely (fun _ => ?_) fun _ => ite_eq_safely (fun _ => ?_) fun _ => rfl
      -- up to three octal digits
      · have hoctal : slice (c :: rest) 0 _ = (.ok _ : Checked Fault _) :=
          slice_eq (Nat.zero_le _) (prefix_digitRun 8 3 (c :: rest))
        rw [Nat.zero_add] at hoctal
        dsimp only [bind, Except.bind]
        rw [hoctal]
        dsimp only
        cases codePoint 8 (digitRun 8 3 (c :: rest)) <;> rfl
      -- up to two digits behind an `x`
      · have hdigits := hslice 2
        rw [digitCount_eq hone, drop_succ_cons, drop_zero]
        generalize digitRun 16 2 rest = digits at *
        dsimp only [bind, Except.bind]
        cases digits with
        | nil => rfl
        | cons d ds =>
          rw [hdigits]
          dsimp only
          cases codePoint 16 (d :: ds) <;> rfl
      · rw [getElem?_cons_succ, ← head?_eq_getElem?]
        refine ite_eq_safely (fun hbrace => ?_) fun _ => ?_
        -- a list of code points between braces
        · obtain ⟨tail, rfl⟩ := head?_eq_some_iff.1 (eq_of_beq hbrace)
          rw [bracedCodePoints_eq (by simp) (by omega)]
          change safely ((Literal.bracedCodePoints false tail).map _) =
            safely (Literal.bracedCodePoints false tail >>= _)
          cases Literal.bracedCodePoints false tail <;> rfl
        -- four digits behind a `u`
        · have hdigits := hslice 4
          rw [digitCount_eq hone, drop_succ_cons, drop_zero]
          generalize digitRun 16 4 rest = digits at *
          dsimp only [bind, Except.bind]
          refine ite_eq_safely (fun _ => rfl) fun hfour => ?_
          rw [Bool.not_eq_true, bne_eq_false_iff_eq] at hfour
          rw [hfour] at hdigits
          have hfive : slice (c :: rest) 1 5 = (.ok digits : Checked Fault _) := hdigits
          rw [hfive]
          dsimp only
          cases codePoint 16 digits <;> rfl

/-! ### Interpolations -/

/-- The position of the quote that closes a quoted section, or a position behind the buffer. -/
def quoteEnd (text : List Char) (quote : Char) (pos : Nat) : Nat :=
  if h : pos < text.length then
    if text[pos] == '\\' then quoteEnd text quote (pos + 2)
    else if text[pos] == quote then pos
    else quoteEnd text quote (pos + 1)
  else pos
termination_by text.length - pos

/-- The position of the brace that closes the code of an interpolation. -/
def matchingBrace (text : List Char) (rounds depth pos : Nat) : Checked Fault (Option Nat) :=
  match rounds with
  | 0 => .error .breach
  | rounds + 1 =>
    match text[pos]? with
    | none => .ok none
    | some c =>
      if c == '{' then matchingBrace text rounds (depth + 1) (pos + 1)
      else if c == '}' then
        if depth = 0 then .ok (some pos)
        else do
          let outer ← countDown depth
          matchingBrace text rounds outer (pos + 1)
      else if c == '"' || c == '\'' then
        matchingBrace text rounds depth (quoteEnd text c (pos + 1) + 1)
      else matchingBrace text rounds depth (pos + 1)

theorem le_quoteEnd (text : List Char) (quote : Char) (pos : Nat) :
    pos ≤ quoteEnd text quote pos := by
  induction pos using quoteEnd.induct text quote with
  | case1 pos h hescape ih =>
    rw [quoteEnd, dif_pos h, if_pos hescape]
    omega
  | case2 pos h hescape hquote =>
    rw [quoteEnd, dif_pos h, if_neg hescape, if_pos hquote]
  | case3 pos h hescape hquote ih =>
    rw [quoteEnd, dif_pos h, if_neg hescape, if_neg hquote]
    omega
  | case4 pos h => rw [quoteEnd, dif_neg h]

theorem closingBraceFrom_escaped (quote : Char) (depth : Nat) (text : List Char) :
    closingBraceFrom (.escaped quote depth) text =
      (closingBraceFrom (.inQuotes quote depth) (text.drop 1)).map (· + 1) := by
  cases text with
  | nil => rfl
  | cons c rest => rfl

/-- What is found behind the next character is found from there. -/
theorem map_add_one_map_add (pos : Nat) (found : Option Nat) :
    (found.map (· + 1)).map (pos + ·) = found.map (pos + 1 + ·) := by
  cases found with
  | none => rfl
  | some n => exact congrArg some (show pos + (n + 1) = pos + 1 + n by omega)

/-- A quoted section is passed as a whole. -/
theorem closingBraceFrom_quoteEnd (text : List Char) (quote : Char) (depth pos : Nat) :
    (closingBraceFrom (.inQuotes quote depth) (text.drop pos)).map (pos + ·) =
      (closingBraceFrom (.plain depth) (text.drop (quoteEnd text quote pos + 1))).map
        (quoteEnd text quote pos + 1 + ·) := by
  induction pos using quoteEnd.induct text quote with
  | case1 pos h hescape ih =>
    rw [quoteEnd, dif_pos h, if_pos hescape, ← ih, drop_eq_getElem_cons h, closingBraceFrom,
      if_pos hescape, closingBraceFrom_escaped, drop_drop, map_add_one_map_add,
      map_add_one_map_add]
  | case2 pos h hescape hquote =>
    rw [quoteEnd, dif_pos h, if_neg hescape, if_pos hquote, drop_eq_getElem_cons h,
      closingBraceFrom, if_neg hescape, if_pos hquote, map_add_one_map_add]
  | case3 pos h hescape hquote ih =>
    rw [quoteEnd, dif_pos h, if_neg hescape, if_neg hquote, ← ih, drop_eq_getElem_cons h,
      closingBraceFrom, if_neg hescape, if_neg hquote, map_add_one_map_add]
  | case4 pos h =>
    have hle := Nat.le_of_not_lt h
    rw [quoteEnd, dif_neg h, drop_eq_nil_of_le hle, drop_eq_nil_of_le (by omega)]
    rfl

theorem matchingBrace_eq {rounds depth pos : Nat} (hrounds : text.length - pos < rounds) :
    matchingBrace text rounds depth pos =
      .ok ((closingBraceFrom (.plain depth) (text.drop pos)).map (pos + ·)) := by
  induction rounds generalizing depth pos with
  | zero => omega
  | succ rounds ih =>
    rw [matchingBrace]
    by_cases hpos : pos < text.length
    · rw [getElem?_eq_getElem hpos, drop_eq_getElem_cons hpos, closingBraceFrom_plain]
      generalize text[pos] = c
      dsimp only
      split
      · rw [ih (by omega), map_add_one_map_add]
      · split
        · cases depth with
          | zero => rfl
          | succ depth =>
            -- the count goes down only where it has gone up before
            rw [if_neg (Nat.succ_ne_zero depth)]
            dsimp only [countDown, bind, Except.bind]
            rw [ih (by omega), map_add_one_map_add]
        · split
          -- an escape before the end of the buffer may lead beyond it, where nothing is found
          · have hle := le_quoteEnd text c (pos + 1)
            rw [ih (by omega), ← closingBraceFrom_quoteEnd, map_add_one_map_add]
          · rw [ih (by omega), map_add_one_map_add]
    · have hle := Nat.le_of_not_lt hpos
      rw [getElem?_eq_none hle, drop_eq_nil_of_le hle]
      rfl

/-! ### String bodies -/

/-- The pieces at a position that holds `c`, if the body is not closed there, the position behind
them, and the line ends up to there.  The lines of code count from `line`, the line of the start of
the buffer. -/
def firstPieces (text : List Char) (close : Option Char) (interpolated : Bool)
    (line pos newlines : Nat) (c : Char) : Checked Fault (List Piece × Nat × Nat) := do
  let newlines ← addLines newlines (newlinesOf [c])
  if c == '\\' then
    match text[pos + 1]? with
    | none => .error (.fault .unterminatedEscape)
    | some next => do
      let newlines ← addLines newlines (newlinesOf [next])
      if interpolated then
        let (decoded, length) ← decodeEscape (← slice text (pos + 1) text.length)
        return (decoded.map .char, pos + (1 + length), newlines)
      else
        let kept := if next == '\\' || some next == close then [next] else ['\\', next]
        return (kept.map .char, pos + 2, newlines)
  else if interpolated && c == '#' && text[pos + 1]? == some '{' then
    match ← matchingBrace text (text.length + 1) 0 (pos + 2) with
    | none => .error (.fault .unterminatedInterpolation)
    | some brace => do
      let source ← slice text (pos + 2) brace
      let codeLine ← addLines line newlines
      let newlines ← addLines newlines (newlinesOf source)
      return ([.code (String.ofList source) codeLine], brace + 1, newlines)
  else return ([.char c], pos + 1, newlines)

/-- The pieces of a string body from a position on, the position behind it, and the line ends up to
there. -/
def scanPieces (text : List Char) (close : Option Char) (interpolated : Bool) (line : Nat)
    (rounds pos newlines : Nat) : Checked Fault (List Piece × Nat × Nat) :=
  match rounds with
  | 0 => .error .breach
  | rounds + 1 =>
    match text[pos]? with
    | none => if close.isSome then .error (.fault .unterminatedString) else .ok ([], pos, newlines)
    | some c =>
      if some c == close then .ok ([], pos + 1, newlines)
      else do
        let (first, next, newlines) ← firstPieces text close interpolated line pos newlines c
        let (pieces, last) ← scanPieces text close interpolated line rounds next newlines
        return (first ++ pieces, last)

/-- What is found at a position, with its extent as the position and the count behind it. -/
def piecesAt (pos newlines : Nat) (found : List Piece × Extent) : List Piece × Nat × Nat :=
  (found.1, pos + found.2.length, newlines + found.2.newlines)

section Pieces

variable {text : List Char} {close : Option Char} {interpolated : Bool} {line pos newlines : Nat}

/-- The first pieces at a position are those of the text that remains there. -/
theorem firstPieces_eq {c : Char} (hchar : text[pos]? = some c)
    (hlines : line + newlines + newlinesOf (text.drop pos) < lineBound) :
    firstPieces text close interpolated line pos newlines c =
      safely ((LaneScript.firstPieces close interpolated (line + newlines) c
        (text.drop (pos + 1))).map (piecesAt pos newlines)) := by
  rw [drop_eq_cons hchar, newlinesOf_cons] at hlines
  rw [firstPieces, LaneScript.firstPieces, addLines_eq (by omega), head?_drop]
  dsimp only [bind, Except.bind]
  refine ite_eq_safely_map Iff.rfl (fun hescape => ?_) fun _ => ite_eq_safely_map Iff.rfl
    (fun hcode => ?_) fun _ => rfl
  -- the backslash is on no new line, but the character behind it may be
  · have hplain : newlinesOf [c] = 0 := by
      rw [eq_of_beq hescape]
      rfl
    cases hnext : text[pos + 1]? with
    | none => rfl
    | some next =>
      have hlt := (List.getElem?_eq_some_iff.1 hnext).1
      rw [drop_eq_cons hnext, newlinesOf_cons next] at hlines
      rw [hplain, Nat.add_zero]
      dsimp only
      rw [addLines_eq (by omega)]
      dsimp only
      refine ite_eq_safely_map Iff.rfl (fun _ => ?_) fun _ => rfl
      rw [slice_to_end (Nat.le_of_lt hlt)]
      dsimp only
      rw [decodeEscape_eq]
      cases Literal.decodeEscape (text.drop (pos + 1)) <;> rfl
  · simp only [Bool.and_eq_true, beq_iff_eq] at hcode
    have hlt := (List.getElem?_eq_some_iff.1 hcode.2).1
    have hplain : newlinesOf [c] = 0 := by
      rw [hcode.1.2]
      rfl
    rw [matchingBrace_eq (by omega), drop_drop, hplain, Nat.add_zero]
    change _ = safely (Except.map (piecesAt pos newlines)
      (match closingBraceFrom (.plain 0) (text.drop (pos + 2)) with
      | none => _
      | some length => _))
    cases hlength : closingBraceFrom (.plain 0) (text.drop (pos + 2)) with
    | none => rfl
    | some length =>
      -- the source between the braces is a part of what remains, and so are its lines
      have hle := closingBraceFrom_lt hlength
      have hsplit := newlinesOf_take_add_drop length (text.drop (pos + 2))
      have hrest : newlinesOf (text.drop (pos + 2)) ≤ newlinesOf (text.drop (pos + 1)) :=
        newlinesOf_drop_add_le (pos + 1) 1 text
      rw [length_drop] at hle
      dsimp only [Option.map_some]
      rw [slice_take (by omega)]
      dsimp only
      rw [addLines_eq (by omega), addLines_eq (by omega)]
      have hsum : pos + 2 + length + 1 = pos + (length + 3) := by omega
      rw [hsum]
      rfl

/-- The body at a position is that of the text that remains there. -/
theorem scanPieces_eq (close : Option Char) (interpolated : Bool) {rounds : Nat}
    (hrounds : text.length - pos < rounds)
    (hlines : line + newlines + newlinesOf (text.drop pos) < lineBound) :
    scanPieces text close interpolated line rounds pos newlines =
      safely ((Literal.scanPieces close interpolated (line + newlines) (text.drop pos)).map
        (piecesAt pos newlines)) := by
  induction rounds generalizing pos newlines with
  | zero => omega
  | succ rounds ih =>
    rw [scanPieces]
    by_cases hpos : pos < text.length
    · have hchar := getElem?_eq_getElem hpos
      have hdrop := drop_eq_getElem_cons hpos
      generalize text[pos] = c at hchar hdrop
      rw [hchar]
      dsimp only
      by_cases hclose : (some c == close) = true
      · rw [if_pos hclose, hdrop, Literal.scanPieces, if_pos hclose]
        rfl
      have hread := scans_firstPieces close interpolated (line + newlines) c (text.drop (pos + 1))
      rw [if_neg hclose, firstPieces_eq hchar hlines, hdrop,
        scanPieces_cons interpolated _ _ hclose]
      cases hfirst : LaneScript.firstPieces close interpolated (line + newlines) c
          (text.drop (pos + 1)) with
      | error fault => rfl
      | ok first =>
        rw [hfirst, ← hdrop] at hread
        -- the pieces have a length, so there are rounds enough behind them
        have hlength := hread.1
        have hnewlines := newlines_le_of_counts hread.2.counts
        rw [drop_drop] at hnewlines
        dsimp only [Except.map, safely_ok, piecesAt, bind, Except.bind]
        rw [ih (by omega) (by omega), ← hdrop, drop_drop, Nat.add_assoc line]
        cases Literal.scanPieces close interpolated (line + (newlines + first.2.newlines))
            (text.drop (pos + first.2.length)) with
        | error fault => rfl
        | ok found =>
          simp only [Except.map, piecesAt, safely_ok, pure, Except.pure, Nat.add_assoc]
    · have hle := Nat.le_of_not_lt hpos
      rw [getElem?_eq_none hle, drop_eq_nil_of_le hle, Literal.scanPieces]
      cases close <;> rfl

end Pieces

end LaneScript.Positions
