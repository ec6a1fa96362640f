import LaneScript.Proofs.Lexemes

/-!
# How far a reading goes

What is read of a text is a first part of it.  `Extent.IsOf` says so of an extent: it is not empty,
it ends inside of the text, and it counts no more line ends than it passes.  `Gap.behind` of a part
that ends in a character of a token is no gap; the characters of names and numerals are no blanks.

Most lexemes are put together from runs of characters.  `prefix_append` joins two runs, the second
of which starts where the first one ends.
-/

namespace LaneScript

open Literal
open Text (isAscii isBlank isNameChar isNameStart isNumeric inRuns)
open List

variable {text : List Char} {c : Char}

/-! ### Line ends -/

namespace Literal

theorem newlinesOf_append (one other : List Char) :
    newlinesOf (one ++ other) = newlinesOf one + newlinesOf other :=
  count_append

theorem newlinesOf_cons (c : Char) (text : List Char) :
    newlinesOf (c :: text) = newlinesOf [c] + newlinesOf text :=
  newlinesOf_append [c] text

theorem newlinesOf_lineEnd (text : List Char) : newlinesOf ('\n' :: text) = newlinesOf text + 1 :=
  count_cons_self

/-- A cut loses no line end. -/
theorem newlinesOf_take_add_drop (n : Nat) (text : List Char) :
    newlinesOf (text.take n) + newlinesOf (text.drop n) = newlinesOf text := by
  rw [← newlinesOf_append, take_append_drop]

theorem newlinesOf_drop_le (n : Nat) (text : List Char) :
    newlinesOf (text.drop n) ≤ newlinesOf text :=
  (drop_sublist n text).count_le '\n'

theorem newlinesOf_drop_add_le (pos n : Nat) (text : List Char) :
    newlinesOf (text.drop (pos + n)) ≤ newlinesOf (text.drop pos) := by
  rw [← drop_drop]
  exact newlinesOf_drop_le n _

/-- The extent is a first part of the text, with no more line ends than that part has. -/
structure Extent.IsOf (extent : Extent) (text : List Char) : Prop where
  length_pos : 0 < extent.length
  length_le : extent.length ≤ text.length
  newlines_le : extent.newlines + newlinesOf (text.drop extent.length) ≤ newlinesOf text

/-- An extent behind the first characters of a text, with these. -/
theorem Extent.IsOf.shift {extent : Extent} {opening : Nat} (h : extent.IsOf (text.drop opening)) :
    Extent.IsOf ⟨opening + extent.length, extent.newlines⟩ text := by
  have hpos := h.length_pos
  have hle := h.length_le
  have hnewlines := h.newlines_le
  rw [length_drop] at hle
  rw [drop_drop] at hnewlines
  exact ⟨by dsimp only; omega, by dsimp only; omega,
    Nat.le_trans hnewlines (newlinesOf_drop_le opening text)⟩

/-- A first part of a text is an extent of it on one line. -/
theorem Extent.isOf_of_prefix {read text : List Char} (hne : read ≠ []) (h : read <+: text) :
    Extent.IsOf ⟨read.length, 0⟩ text :=
  ⟨length_pos_iff.2 hne, h.length_le, by
    rw [Nat.zero_add]
    exact newlinesOf_drop_le _ text⟩

end Literal

/-! ### Runs of characters -/

/-- Two runs, the second of which starts where the first one ends. -/
theorem prefix_append {one other text : List Char} (hone : one <+: text)
    (hother : other <+: text.drop one.length) : one ++ other <+: text := by
  obtain ⟨rest, rfl⟩ := hone
  rw [drop_left] at hother
  exact (prefix_append_right_inj one).2 hother

theorem take_length_of_isPrefix {read text : List Char} (h : read <+: text) :
    text.take read.length = read :=
  (prefix_iff_eq_take.1 h).symm

/-- A run that does not reach the end of the text stops at a character of another class. -/
theorem getElem?_length_takeWhile {p : Char → Bool} (h : (text.takeWhile p).length < text.length) :
    ∃ c, text[(text.takeWhile p).length]? = some c ∧ p c = false := by
  induction text with
  | nil => cases h
  | cons c rest ih =>
    cases hc : p c with
    | false =>
      rw [takeWhile_cons_of_neg (by rw [hc]; exact Bool.false_ne_true)]
      exact ⟨c, rfl, hc⟩
    | true =>
      rw [takeWhile_cons_of_pos hc] at h ⊢
      exact ih (Nat.lt_of_succ_lt_succ h)

/-- The first character behind a run is of another class. -/
theorem head_of_drop_takeWhile {p : Char → Bool} {text rest : List Char}
    (h : text.drop (text.takeWhile p).length = c :: rest) : p c = false := by
  have hhead : text[(text.takeWhile p).length]? = some c := by
    rw [← head?_drop, h]
    rfl
  obtain ⟨d, hd, hp⟩ := getElem?_length_takeWhile (List.getElem?_eq_some_iff.1 hhead).1
  rw [hhead] at hd
  cases hd
  exact hp

/-- A mark stands in front of the text it is read from. -/
theorem prefix_nameMark (text : List Char) : Lexeme.nameMark text <+: text := by
  unfold Lexeme.nameMark
  split
  · split
    · exact List.prefix_append [_] _
    · exact nil_prefix
  · exact nil_prefix

theorem prefix_symbolMark (text : List Char) : Lexeme.symbolMark text <+: text := by
  unfold Lexeme.symbolMark
  split
  · split
    · exact List.prefix_append [_] _
    · exact nil_prefix
  · exact nil_prefix

theorem prefix_fraction (text : List Char) : fraction text <+: text := by
  unfold fraction
  split
  · split
    · exact cons_prefix_cons.2 ⟨rfl, takeWhile_prefix _⟩
    · exact nil_prefix
  · exact nil_prefix

theorem prefix_exponentSign (text : List Char) : exponentSign text <+: text := by
  unfold exponentSign
  split
  · exact List.prefix_append ['+'] _
  · exact List.prefix_append ['-'] _
  · exact nil_prefix

/-- An exponent is a front part of the text. -/
theorem prefix_exponentPart (text : List Char) : exponentPart text <+: text := by
  unfold exponentPart
  split
  · split
    · dsimp only
      split
      · exact nil_prefix
      · exact cons_prefix_cons.2
          ⟨rfl, prefix_append (prefix_exponentSign _) (List.takeWhile_prefix _)⟩
    · exact nil_prefix
  · exact nil_prefix

/-! ### Characters that are no blanks -/

theorem isBlank_of_isDigit (h : c.isDigit = true) : isBlank c = false := by
  have hall : ∀ c ∈ digitChars, isBlank c = false := forall_mem_of_all (by decide)
  exact hall c (mem_digitChars h)

theorem isBlank_of_isNumeric (h : isNumeric c = true) : isBlank c = false := by
  cases hascii : isAscii c with
  | true =>
    rw [isNumeric, hascii] at h
    exact isBlank_of_isDigit h
  | false =>
    rw [isNumeric, hascii] at h
    refine Bool.eq_false_iff.2 fun hblank => ?_
    rw [inRuns_of_isBlank (by decide +kernel) hblank hascii] at h
    exact Bool.false_ne_true h

theorem isBlank_of_isNameChar (h : isNameChar c = true) : isBlank c = false := by
  rw [isNameChar, Text.isAlphanumeric, Bool.or_assoc, Bool.or_comm (isNumeric c), ← Bool.or_assoc,
    Bool.or_eq_true] at h
  rcases h with h | h
  · exact isBlank_of_isNameStart h
  · exact isBlank_of_isNumeric h

/-- The visible characters of ASCII are no blanks. -/
theorem isBlank_of_toNat (hlow : 0x20 < c.toNat) (hhigh : c.toNat < 0x80) : isBlank c = false := by
  have hspace : (c == ' ') = false := by
    refine beq_false_of_ne ?_
    rintro rfl
    exact absurd hlow (by decide)
  simp only [isBlank, isAscii, hhigh, decide_true, if_true, hspace, Bool.or_false,
    Bool.and_eq_false_iff, decide_eq_false_iff_not]
  omega

theorem isBlank_of_isDigitOf {radix : Nat} (h : Number.isDigitOf radix c = true) :
    isBlank c = false := by
  simp only [Number.isDigitOf, Bool.and_eq_true, Bool.or_eq_true, decide_eq_true_eq] at h
  obtain ⟨(hdigit | ⟨hlow, hhigh⟩) | ⟨hlow, hhigh⟩, -⟩ := h
  · exact isBlank_of_isDigit hdigit
  · have hlow : 97 ≤ c.toNat := hlow
    have hhigh : c.toNat ≤ 102 := hhigh
    exact isBlank_of_toNat (by omega) (by omega)
  · have hlow : 65 ≤ c.toNat := hlow
    have hhigh : c.toNat ≤ 70 := hhigh
    exact isBlank_of_toNat (by omega) (by omega)

theorem isBlank_of_isNumeralChar {radix : Nat} (h : isNumeralChar radix c = true) :
    isBlank c = false := by
  rw [isNumeralChar, Bool.or_eq_true] at h
  rcases h with h | h
  · exact isBlank_of_isDigitOf h
  · rw [eq_of_beq h]
    decide

/-! ### The gap behind a part of a text -/

namespace Gap

theorem ofChar_of_not_isBlank (h : isBlank c = false) : ofChar c = .none := by
  have hnewline : (c == '\n') = false := by
    refine beq_false_of_ne ?_
    rintro rfl
    cases h
  simp [ofChar, hnewline, h]

/-- What decides is the second of two parts. -/
theorem behind_append (one : List Char) {other : List Char} (h : other ≠ []) :
    behind (one ++ other) = behind other := by
  unfold behind
  rw [getLast?_append, getLast?_eq_some_getLast h, Option.some_or]

/-- No gap follows a part without blanks. -/
theorem behind_of_not_isBlank {read : List Char} (hne : read ≠ [])
    (h : ∀ c ∈ read, isBlank c = false) : behind read = .none := by
  unfold behind
  rw [getLast?_eq_some_getLast hne]
  exact ofChar_of_not_isBlank (h _ (getLast_mem hne))

/-- A part that ends with a line end, or with nothing, keeps the start of a line. -/
theorem behind_append_lineStart {one other : List Char} (hone : behind one = .lineStart)
    (hother : behind other = .lineStart) : behind (one ++ other) = .lineStart := by
  cases other with
  | nil => rwa [append_nil]
  | cons c other => rwa [behind_append one (cons_ne_nil c other)]

/-- The last character of a part decides on the gap behind it. -/
theorem behind_take_add_one {n : Nat} (h : text[n]? = some c) :
    behind (text.take (n + 1)) = ofChar c := by
  rw [take_add_one, h]
  exact behind_append _ (cons_ne_nil _ _)

/-- The gap behind an extent, seen from behind the first characters of the text. -/
theorem behind_take_add {opening n : Nat} (hpos : 0 < n) (hle : n ≤ (text.drop opening).length) :
    behind (text.take (opening + n)) = behind ((text.drop opening).take n) := by
  rw [take_add]
  refine behind_append _ fun hnil => ?_
  have hlength := congrArg List.length hnil
  rw [length_take, length_nil] at hlength
  omega

end Gap
end LaneScript
