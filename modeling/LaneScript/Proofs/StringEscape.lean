import LaneScript.Literal.StringBody
import LaneScript.Tree.Render
import Mathlib.Data.List.TakeWhile

/-!
# Escaped text reads back

What `escape` writes between two quotes, the scanner of a string body reads as the text it came
from, character by character: no escape is cut short by what stands behind it, no plain character
opens an escape or an interpolation, and the first quote that counts is the closing one.

* `escapeChar_spec` — a character is written as itself, or as an escape that decodes to it whatever
  follows;
* `scanPieces_escapeChar` — the scanner takes one written character in one step;
* `scanBody_escape` — the scanner reads an escaped text as that text, all of it on one line.
-/

namespace LaneScript

open Literal
open Number (isDigitOf ofDigits)
open Text (hexadecimal isControl)
open List

variable {c q : Char} {tail : List Char}

/-- A property of the characters of a list, decided for one after the other: a property of the form
`∀ c : Char, …` is decided by trying all characters. -/
theorem forall_mem_of_all {p : Char → Prop} [DecidablePred p] {chars : List Char}
    (h : (chars.all fun c => p c) = true) : ∀ c ∈ chars, p c := by
  simpa using h

/-! ### Control characters -/

/-- The digits of the code point of a control character. -/
def controlDigits (c : Char) : List Char :=
  replicate (4 - (hexadecimal c.toNat).length) '0' ++ (hexadecimal c.toNat).toList

theorem toList_pushn (text : String) (c : Char) (n : Nat) :
    (text.pushn c n).toList = text.toList ++ replicate n c := by
  rw [String.pushn_eq_repeat_push]
  induction n with
  | zero => simp [Nat.repeat]
  | succ n ih => rw [Nat.repeat, String.toList_push, ih, List.append_assoc, replicate_succ']

theorem toList_escapeCode (c : Char) : (escapeCode c).toList = '\\' :: 'u' :: controlDigits c := by
  simp [escapeCode, controlDigits, toList_pushn]

/-- Four hexadecimal digits denote a control character. -/
theorem controlDigits_spec (h : isControl c = true) :
    (controlDigits c).length = 4 ∧ (∀ d ∈ controlDigits c, isDigitOf 16 d = true) ∧
      ofDigits 16 (controlDigits c) = c.toNat := by
  have hbound : c.toNat < 0xa0 := by
    simp only [isControl, Bool.or_eq_true, Bool.and_eq_true, decide_eq_true_eq] at h
    omega
  -- Control characters have small code points, so they can be tried one by one.
  have hall : ∀ n < 0xa0, (controlDigits (Char.ofNat n)).length = 4 ∧
      (controlDigits (Char.ofNat n)).all (isDigitOf 16) = true ∧
      ofDigits 16 (controlDigits (Char.ofNat n)) = n := by
    decide +kernel
  have hc := hall c.toNat hbound
  rwa [Char.ofNat_toNat, all_eq_true] at hc

theorem digitRun_append (radix : Nat) {digits : List Char}
    (h : ∀ d ∈ digits, isDigitOf radix d = true) (tail : List Char) :
    digitRun radix digits.length (digits ++ tail) = digits := by
  rw [digitRun, take_left]
  exact takeWhile_eq_self_iff.2 h

theorem codePoint_of_ofDigits_eq {radix : Nat} {digits : List Char}
    (h : ofDigits radix digits = c.toNat) : codePoint radix digits = .ok c := by
  have hvalid : (ofDigits radix digits).isValidChar := by
    rw [h]
    exact c.valid
  rw [codePoint, dif_pos hvalid]
  congr 1
  generalize ofDigits radix digits = code at h hvalid
  subst h
  rfl

/-- The escape of a control character by its code point decodes to it. -/
theorem decodeEscape_controlDigits (h : isControl c = true) (tail : List Char) :
    decodeEscape ('u' :: controlDigits c ++ tail) = .ok ([c], 5) := by
  obtain ⟨hlength, hdigits, hvalue⟩ := controlDigits_spec h
  have hrun : digitRun 16 4 (controlDigits c ++ tail) = controlDigits c := by
    rw [← hlength]
    exact digitRun_append 16 hdigits tail
  -- With a brace behind the letter there would be a list of code points.
  have hbrace : (controlDigits c ++ tail).head? ≠ some '{' := by
    cases hd : controlDigits c with
    | nil => simp [hd] at hlength
    | cons d ds =>
      have := hdigits d (by simp [hd])
      rintro ⟨⟩
      exact absurd this (by decide)
  rw [cons_append, decodeEscape]
  simp only [letterEscape?, hrun, hlength]
  rw [if_neg (by decide), if_neg (by decide), if_neg (by decide), if_pos (by decide),
    if_neg (by simpa using hbrace), if_neg (by decide), codePoint_of_ofDigits_eq hvalue]
  rfl

/-! ### One character -/

/-- The characters a literal may be quoted with and still be interpolated. -/
def IsQuote (q : Char) : Prop := q = '"' ∨ q = '\x60'

/-- The characters that are written with one character behind a backslash wherever they stand. -/
def letterTable : List (Char × Char) :=
  [('\\', '\\'), ('\n', 'n'), ('\t', 't'), ('\r', 'r'), ('\x1b', 'e'), ('\x07', 'a'), ('\x08', 'b'),
    ('\x0b', 'v'), ('\x0c', 'f')]

theorem escapeChar_of_mem_letterTable {row : Char × Char} (h : row ∈ letterTable) (q : Char)
    (next : Option Char) :
    (escapeChar q row.1 next).toList = ['\\', row.2] ∧ row.2 ≠ '\n' ∧
      ∀ tail, decodeEscape (row.2 :: tail) = .ok ([row.1], 1) := by
  simp only [letterTable, mem_cons, not_mem_nil, or_false] at h
  rcases h with rfl | rfl | rfl | rfl | rfl | rfl | rfl | rfl | rfl <;>
    exact ⟨by simp [escapeChar], by decide, fun _ => rfl⟩

theorem escapeChar_of_not_lettered (h : c ∉ letterTable.map (·.1)) (q : Char) (next : Option Char) :
    escapeChar q c next =
      if c = '#' ∧ (next = some '{' ∨ next = some '@' ∨ next = some '$') then "\\#"
      else if c = q then "\\" ++ c.toString
      else if isControl c then escapeCode c
      else c.toString := by
  simp only [letterTable, map_cons, map_nil, mem_cons, not_mem_nil, or_false,
    not_or] at h
  simp [escapeChar, h, or_assoc]

/-- A character is written as an escape, which decodes to it whatever follows, or as itself, and
then it neither closes the literal nor opens anything in it. -/
theorem escapeChar_spec (hq : IsQuote q) (c : Char) (next : Option Char) :
    (∃ d ds, (escapeChar q c next).toList = '\\' :: d :: ds ∧ d ≠ '\n' ∧
      ∀ tail, decodeEscape (d :: ds ++ tail) = .ok ([c], (d :: ds).length)) ∨
    ((escapeChar q c next).toList = [c] ∧ c ≠ '\\' ∧ c ≠ q ∧ c ≠ '\n' ∧
      (c = '#' → next ≠ some '{')) := by
  -- The cases come in the order in which the writer asks for them.
  by_cases hlettered : c ∈ letterTable.map (·.1)
  · obtain ⟨row, hrow, rfl⟩ := mem_map.1 hlettered
    obtain ⟨htext, hn, hdecode⟩ := escapeChar_of_mem_letterTable hrow q next
    exact .inl ⟨row.2, [], htext, hn, hdecode⟩
  rw [escapeChar_of_not_lettered hlettered]
  by_cases hhash : c = '#' ∧ (next = some '{' ∨ next = some '@' ∨ next = some '$')
  · rw [if_pos hhash, hhash.1]
    exact .inl ⟨'#', [], rfl, by decide, fun _ => rfl⟩
  rw [if_neg hhash]
  by_cases hquote : c = q
  · rw [if_pos hquote, hquote]
    rcases hq with rfl | rfl <;> exact .inl ⟨_, [], rfl, by decide, fun _ => rfl⟩
  rw [if_neg hquote]
  by_cases hcontrol : isControl c = true
  · rw [if_pos hcontrol, toList_escapeCode]
    refine .inl ⟨'u', controlDigits c, rfl, by decide, fun tail => ?_⟩
    rw [decodeEscape_controlDigits hcontrol, length_cons, (controlDigits_spec hcontrol).1]
  rw [if_neg hcontrol]
  -- What is left is written as itself, and every way to be special has been ruled out.
  refine .inr ⟨by simp, ?_, hquote, ?_, fun hc hnext => hhash ⟨hc, .inl hnext⟩⟩
  · rintro rfl
    exact hlettered (by decide)
  · rintro rfl
    exact hlettered (by decide)

/-! ### The scanner of a literal -/

/-- What the scanner finds when it first takes some characters that are written with `length`. -/
def withChars (cs : List Char) (length : Nat) (found : List Piece × Extent) : List Piece × Extent :=
  (cs.map .char ++ found.1, ⟨length + found.2.length, found.2.newlines⟩)

theorem scanPieces_escaped (hq : IsQuote q) (line : Nat) {c d : Char} {ds tail : List Char}
    (hd : d ≠ '\n') (hdecode : decodeEscape (d :: ds ++ tail) = .ok ([c], (d :: ds).length)) :
    scanPieces (some q) true line ('\\' :: d :: ds ++ tail) =
      (scanPieces (some q) true line tail).map (withChars [c] (ds.length + 2)) := by
  have hclose : (some '\\' == some q) = false := by
    rcases hq with rfl | rfl <;> rfl
  have hcrossed : newlinesOf [d] = 0 := by
    simp [newlinesOf, hd]
  have hdrop : (d :: (ds ++ tail)).drop (d :: ds).length = tail := by
    rw [← cons_append]
    exact drop_left
  rw [cons_append] at hdecode
  rw [cons_append, cons_append, scanPieces]
  simp only [hclose, Bool.false_eq_true, if_false, beq_self_eq_true, if_true, head?_cons,
    hcrossed, hdecode, Nat.add_zero]
  -- Behind the escape the scanner goes on with the tail.
  show (scanPieces (some q) true line _ >>= _) = _
  rw [hdrop]
  cases scanPieces (some q) true line tail with
  | error fault => rfl
  | ok found =>
    simp [bind, Except.bind, Except.map, withChars]
    omega

theorem scanPieces_plain (line : Nat) (hback : c ≠ '\\') (hquote : c ≠ q) (hn : c ≠ '\n')
    (hhash : c = '#' → tail.head? ≠ some '{') :
    scanPieces (some q) true line (c :: tail) =
      (scanPieces (some q) true line tail).map (withChars [c] 1) := by
  have hcrossed : newlinesOf [c] = 0 := by
    simp [newlinesOf, hn]
  have hcode : (true && c == '#' && tail.head? == some '{') = false := by
    simpa using hhash
  rw [scanPieces]
  simp only [hcode, hcrossed]
  rw [if_neg (by simpa using hquote), if_neg (by simpa using hback), if_neg Bool.false_ne_true]
  cases scanPieces (some q) true line tail with
  | error fault => simp [Except.map, bind, Except.bind]
  | ok found => simp [Except.map, bind, Except.bind, withChars]

/-- The scanner takes a written character in one step.  A number sign that is written as itself has
no brace behind it. -/
theorem scanPieces_escapeChar (hq : IsQuote q) (line : Nat) (c : Char) {next : Option Char}
    (hnext : tail.head? = some '{' → next = some '{') :
    scanPieces (some q) true line ((escapeChar q c next).toList ++ tail) =
      (scanPieces (some q) true line tail).map (withChars [c] (escapeChar q c next).length) := by
  rw [← String.length_toList]
  rcases escapeChar_spec hq c next with
    ⟨d, ds, htext, hd, hdecode⟩ | ⟨htext, hback, hquote, hn, hhash⟩
  · rw [htext]
    exact scanPieces_escaped hq line hd (hdecode tail)
  · rw [htext]
    exact scanPieces_plain line hback hquote hn fun hc hbrace => hhash hc (hnext hbrace)

/-- The first character of an escaped text is a brace only where that of the text is one. -/
theorem head?_escapeChars (hq : IsQuote q) (htail : tail.head? ≠ some '{') (cs : List Char)
    (h : ((escapeChars q cs).toList ++ tail).head? = some '{') : cs.head? = some '{' := by
  cases cs with
  | nil => exact absurd h htail
  | cons c rest =>
    rw [escapeChars, String.toList_append] at h
    rcases escapeChar_spec hq c rest.head? with ⟨d, ds, htext, -⟩ | ⟨htext, -⟩
    · simp [htext] at h
    · simpa [htext] using h

/-- An escaped text is read as the characters of the text.  What is behind it starts with no brace,
so that a number sign at its end opens no code. -/
theorem scanPieces_escapeChars (hq : IsQuote q) (line : Nat) (htail : tail.head? ≠ some '{')
    (cs : List Char) :
    scanPieces (some q) true line ((escapeChars q cs).toList ++ tail) =
      (scanPieces (some q) true line tail).map (withChars cs (escapeChars q cs).length) := by
  induction cs with
  | nil =>
    cases hscan : scanPieces (some q) true line tail <;>
      simp [escapeChars, Except.map, withChars, hscan]
  | cons c rest ih =>
    -- The writer of `c` looks at the next character of the text, the scanner at what is written.
    rw [escapeChars, String.toList_append, List.append_assoc,
      scanPieces_escapeChar hq line c (head?_escapeChars hq htail rest), ih]
    cases scanPieces (some q) true line tail <;>
      simp [Except.map, withChars, String.length_append, Nat.add_assoc]

theorem scanPieces_close (q : Char) (line : Nat) (more : List Char) :
    scanPieces (some q) true line (q :: more) = .ok ([], ⟨1, 0⟩) := by
  simp [scanPieces]

theorem IsQuote.head?_ne (hq : IsQuote q) (more : List Char) : (q :: more).head? ≠ some '{' := by
  rcases hq with rfl | rfl <;> simp

/-! ### The parts of a literal -/

theorem joinAfter_map_char (pending cs : List Char) (pieces : List Piece) :
    joinAfter pending (cs.map .char ++ pieces) = joinAfter (cs.reverse ++ pending) pieces := by
  induction cs generalizing pending with
  | nil => rfl
  | cons c rest ih =>
    show joinAfter (c :: pending) (rest.map .char ++ pieces) = _
    rw [ih, reverse_cons, List.append_assoc, singleton_append]

theorem joinPieces_map_char (cs : List Char) :
    joinPieces (cs.map .char ++ []) = [.text (String.ofList cs)] := by
  cases cs with
  | nil => rfl
  | cons c rest =>
    show joinAfter [] ((c :: rest).map .char ++ []) = _
    rw [joinAfter_map_char]
    simp [joinAfter]

/-- **An escaped text reads back.**  The scanner finds the text as the only part of the literal, and
takes exactly what was written and the closing quote, on one line. -/
theorem scanBody_escape (hq : IsQuote q) (line : Nat) (content : String) (more : List Char) :
    scanBody (some q) true line ((escape q content).toList ++ q :: more) =
      .ok ([.text content], ⟨(escape q content).length + 1, 0⟩) := by
  rw [scanBody, escape, scanPieces_escapeChars hq line (hq.head?_ne more), scanPieces_close]
  show Except.ok (joinPieces (content.toList.map .char ++ []), _) = _
  rw [joinPieces_map_char, String.ofList_toList]

end LaneScript
