import LaneScript.Proofs.DisciplinedRules
import LaneScript.Proofs.PositionLexer
import LaneScript.Proofs.WriterOrders

/-!
# The front end stays in range

A script is read as a buffer of characters, then as a vector of tokens, and it is written by a
writer that keeps an indentation.  Each of these could leave its range: a slice of the buffer, an
index of the vector, a line number, a count that goes down, the opposite of an integer.
`stays_in_range` says that none of them does, for any script whose lines can be numbered, whether
the script can be read or not.  The counts of the parser in particular go down again when a reader
fails, so they are looked at in both outcomes.

The code between the braces of a string is a text of its own, that is read when the parser comes to
it.  `TextWithin` are all texts that the reading of a script may come to in this way.
-/

namespace LaneScript.Positions

open Literal
open List

/-! ### The texts within a script -/

/-- A text that is read, and the number of its first line: the script itself, or code in a string of
a text that is read. -/
inductive TextWithin (file source : String) : Nat → String → Prop where
  | script : TextWithin file source 1 source
  | code {line innerLine : Nat} {text inner : String} {tokens : List Located} {here : Located}
      (houter : TextWithin file source line text)
      (htokens : LaneScript.lexFrom file line text = .ok tokens)
      (hhere : here ∈ tokens) (hcode : .code inner innerLine ∈ here.token.parts) :
      TextWithin file source innerLine inner

/-- No text within a script goes beyond its last line. -/
theorem TextWithin.lines_le {file source text : String} {line : Nat}
    (h : TextWithin file source line text) :
    line + newlinesOf text.toList ≤ 1 + newlinesOf source.toList := by
  induction h with
  | script => exact Nat.le_refl _
  | code houter htokens hhere hcode ih =>
    exact Nat.le_trans (codesFit_of_lexFrom htokens _ hhere _ _ hcode) ih

/-! ### The vector of tokens -/

/-- The token at a position of the vector; behind the end it is the last one. -/
def tokenAt (tokens : List Located) (pos : Nat) : Checked Failure Located := do
  let last ← countDown tokens.length
  match tokens[min pos last]? with
  | some here => .ok here
  | none => .error .breach

/-- The position of the next token, if there is one. -/
def advance (tokens : List Located) (pos : Nat) : Checked Failure Nat := do
  let last ← countDown tokens.length
  return if pos < last then pos + 1 else pos

section Vector

variable {tokens : List Located} {cursor : Cursor} {pos : Nat}

/-- Where a place is one of the vector, there are as many tokens behind the position as behind the
place. -/
theorem length_of_drop (h : tokens.drop pos = cursor.tokens) :
    tokens.length = pos + cursor.ahead.length + 1 := by
  have hlength := congrArg List.length h
  rw [length_drop, Cursor.tokens, length_cons] at hlength
  omega

theorem getElem?_of_drop (h : tokens.drop pos = cursor.tokens) (offset : Nat) :
    tokens[pos + offset]? = (cursor.current :: cursor.ahead)[offset]? := by
  rw [← getElem?_drop, h]
  rfl

theorem tokenAt_eq (h : tokens.drop pos = cursor.tokens) (offset : Nat) :
    tokenAt tokens (pos + offset) = .ok (cursor.peek offset) := by
  rw [tokenAt, length_of_drop h]
  dsimp only [countDown, bind, Except.bind]
  rw [Nat.add_min_add_left, getElem?_of_drop h]
  cases offset with
  | zero =>
    rw [Nat.zero_min]
    rfl
  | succ offset =>
    rw [Cursor.peek]
    by_cases hahead : offset < cursor.ahead.length
    · rw [Nat.min_eq_left hahead, getElem?_cons_succ, getElem?_eq_getElem hahead]
      rfl
    -- behind the end both stay at the last token
    · have hle := Nat.le_of_not_lt hahead
      have hlast : (cursor.current :: cursor.ahead)[cursor.ahead.length]? = some cursor.last := by
        have hcons := getLast?_cons (a := cursor.current) (l := cursor.ahead)
        rwa [getLast?_eq_getElem?] at hcons
      rw [Nat.min_eq_right (Nat.le_succ_of_le hle), hlast, getElem?_eq_none hle]
      rfl

theorem advance_eq (h : tokens.drop pos = cursor.tokens) :
    ∃ next, advance tokens pos = .ok next ∧ tokens.drop next = cursor.advance.tokens := by
  rw [advance, length_of_drop h, Cursor.advance]
  dsimp only [countDown, bind, Except.bind, pure, Except.pure]
  cases hahead : cursor.ahead with
  | nil => exact ⟨pos, by simp, h⟩
  | cons next others =>
    refine ⟨pos + 1, by simp, ?_⟩
    rw [← drop_drop, h, Cursor.tokens, hahead]
    rfl

end Vector

/-! ### Names -/

/-- The characters are a name, with a count of the marks at its end. -/
def isNameText (text : List Char) : Checked Empty Bool := do
  let body := Text.trimRight isNameMark text
  let marks ← if body.length ≤ text.length then .ok (text.length - body.length) else .error .breach
  return (text.head?.any fun c => Text.isAlphabetic c || c == '_')
    && body.all (fun c => Text.isAlphanumeric c || c == '_')
    && marks ≤ 1

theorem isNameText_eq (text : List Char) : isNameText text = .ok (LaneScript.isNameText text) := by
  rw [isNameText, if_pos (trimRight_sublist isNameMark text).length_le]
  rfl

/-! ### The whole front end -/

/-- What stays in range while a text of the file is read that starts on the given line. -/
structure InRange (file : String) (line : Nat) (text : String) : Prop where
  /-- The buffer: what is read by positions is the text, without a breach. -/
  buffer : lexFrom file line text = safely (LaneScript.lexFrom file line text)
  /-- There is a first token. -/
  start : ∀ tokens, LaneScript.lexFrom file line text = .ok tokens →
    (Cursor.ofTokens tokens).tokens = tokens
  /-- The vector: from any place in it one can look ahead, and go to the next one. -/
  vector : ∀ tokens, LaneScript.lexFrom file line text = .ok tokens →
    ∀ cursor : Cursor, cursor.tokens <:+ tokens →
      ∃ pos, (∀ offset, tokenAt tokens (pos + offset) = .ok (cursor.peek offset)) ∧
        ∃ next, advance tokens pos = .ok next ∧ tokens.drop next = cursor.advance.tokens
  /-- The counts: however the statements of the text are read, to their end or to a failure, no
  count goes below zero, each count is what it was before, and the place stays in the vector. -/
  counts : ∀ tokens, LaneScript.lexFrom file line text = .ok tokens →
    ∀ (bound : Nat) (scopes : List Scope) (depth : Nat),
      (State.start file tokens scopes depth).Balances (fun _ => True)
        ((Rule.program (readAt bound)).outcome (.start file tokens scopes depth))
  /-- The integers: those that are read are not negative, and with a minus before it such a number
  has 64 bits. -/
  integers : ∀ tokens, LaneScript.lexFrom file line text = .ok tokens → ∀ here ∈ tokens,
    (∀ value, here.token = .int value → 0 ≤ value) ∧
      ∀ value, here.token.negated? = some (.int value) →
        -(intBound : Int) ≤ value ∧ value < intBound

theorem negated?_of_isWellFormed {token : Token} (h : token.IsWellFormed) {value : Int}
    (hvalue : token.negated? = some (.int value)) :
    -(intBound : Int) ≤ value ∧ value < intBound := by
  cases token with
  | int n =>
    cases hvalue
    obtain ⟨hzero, hbound⟩ : 0 ≤ n ∧ n < intBound := h
    omega
  | float f => cases hvalue
  | _ => cases hvalue

theorem inRange_of_lines {file : String} {line : Nat} {text : String}
    (hlines : line + newlinesOf text.toList + 1 < lineBound) : InRange file line text where
  buffer := lexFrom_eq hlines
  start tokens h := by
    -- the end of the text is a token too
    obtain ⟨s, -, -, rfl⟩ := lexFrom_eq_ok h
    rw [Array.toList_push]
    cases s.tokens.toList <;> rfl
  vector tokens h cursor hcursor := by
    -- the position of a place is the number of tokens before it
    obtain ⟨before, rfl⟩ := hcursor
    exact ⟨before.length, tokenAt_eq drop_left, advance_eq drop_left⟩
  counts tokens h bound scopes depth :=
    (balances_program (isWellFormed_of_lexFrom h) bound file scopes depth).mono fun _ _ => trivial
  integers tokens h here hhere := by
    have hformed := isWellFormed_of_lexFrom h here hhere
    refine ⟨fun value hvalue => ?_, fun _ => negated?_of_isWellFormed hformed⟩
    rw [hvalue] at hformed
    exact hformed.1

/-- The front end stays in range.  The lines of the script have to fit, and one more for a heredoc
that is closed by the end of the input. -/
theorem stays_in_range (file source : String) (hlines : newlinesOf source.toList + 2 < lineBound) :
    (∀ line text, TextWithin file source line text → InRange file line text) ∧
      (∀ failure, parseText file source = .error failure → failure.fault ≠ .unbalanced) ∧
      (∀ script, writeScript script = .ok ⟨renderScript script, 0⟩) ∧
      (∀ name, isNameText name = .ok (LaneScript.isNameText name)) := by
  refine ⟨fun line text hwithin => ?_, fun failure hfailure => ?_, writeScript_eq, isNameText_eq⟩
  · have hle := hwithin.lines_le
    exact inRange_of_lines (by omega)
  · have hbalanced := balances_parseText file source
    rw [hfailure] at hbalanced
    exact hbalanced

/-- A heredoc that is closed by the end of the input, with code in its body. -/
def heredocScript : String := "x = <<~A + -5\n  #\x7by(/\\//, \"\x7d\")\x7d\nA"

theorem stays_in_range_heredoc :
    newlinesOf heredocScript.toList + 2 < lineBound ∧ InRange "Fastfile" 1 heredocScript ∧
      TextWithin "Fastfile" heredocScript 2 "y(/\\//, \"\x7d\")" ∧
      InRange "Fastfile" 2 "y(/\\//, \"\x7d\")" ∧
      writeScript [⟨.guarded [⟨.localVar "x", 1⟩] [] none none, 1⟩] =
        .ok ⟨"begin\n  x\nend", 0⟩ := by
  have hlines : newlinesOf heredocScript.toList + 2 < lineBound := by decide +kernel
  have hrange := stays_in_range "Fastfile" heredocScript hlines
  have hcode : TextWithin "Fastfile" heredocScript 2 "y(/\\//, \"\x7d\")" := by
    have hread : (LaneScript.lexFrom "Fastfile" 1 heredocScript).toOption.any (fun tokens =>
        tokens.any fun here => here.token.parts.contains
          (.code "y(/\\//, \"\x7d\")" 2)) = true := by decide +kernel
    cases htokens : LaneScript.lexFrom "Fastfile" 1 heredocScript with
    | error failure =>
      rw [htokens] at hread
      cases hread
    | ok tokens =>
      rw [htokens] at hread
      obtain ⟨here, hhere, hcode⟩ := any_eq_true.1 hread
      exact .code .script htokens hhere (contains_iff_mem.1 hcode)
  refine ⟨hlines, hrange.1 _ _ .script, hcode, hrange.1 _ _ hcode, ?_⟩
  rw [hrange.2.2.1]
  decide +kernel

end LaneScript.Positions
