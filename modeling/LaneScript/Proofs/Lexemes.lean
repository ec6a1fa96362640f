import LaneScript.Proofs.StringEscape
import LaneScript.Token.Lexer
import Mathlib.Data.List.DropRight
import Mathlib.Data.List.Find

/-!
# Spellings and the lexemes read from them

`Token.spelling` writes a token, and `Lexes` says that a step of the reading takes exactly this
token where its spelling stands: in the given context, with the given text behind it.  Each kind of
token has a lemma that says where this holds.

What makes it hold is the character behind the spelling.  A name, a number or a symbol goes on as
long as it can, so it needs a text behind it that ends it, `endsLexeme`.  An operator must not be
the start of a longer one (`operator?_append`), and `/`, `%` and `<<` only divide, take remainders
and shift when a value is before them and a blank behind.

Main statements: `lexes_name`, `lexes_label`, `lexes_symbol`, `lexes_str`, `lexes_int`,
`lexes_binary`, `lexes_range`, `lexes_minus` and `lexes_punctuation`.
-/

namespace LaneScript

open Literal
open Text (isAlphabetic isAlphanumeric isAscii isBlank isNameChar isNameStart isUppercase inRuns
  trimRight)
open List

variable {c : Char} {rest next : List Char} {context : Context}

/-! ### Where a lexeme ends -/

/-- The text ends the name, number or symbol before it: it is over, or goes on with a blank, a
bracket, a comma, a line end or the dots of a range. -/
def endsLexeme : List Char → Bool
  | [] => true
  | c :: rest => [' ', ',', ')', ']', '(', '\n'].contains c || (c == '.' && rest.head? == some '.')

/-- The characters that a text may start with when it ends a lexeme. -/
theorem head_of_endsLexeme (h : endsLexeme (c :: rest) = true) :
    c ∈ [' ', ',', ')', ']', '(', '\n', '.'] := by
  simp only [endsLexeme, Bool.or_eq_true, contains_iff_mem, Bool.and_eq_true, beq_iff_eq] at h
  rcases h with h | ⟨rfl, -⟩
  · exact mem_append_left ['.'] h
  · decide

/-- A run that none of these characters goes on with is over. -/
theorem takeWhile_eq_nil_of_endsLexeme {p : Char → Bool}
    (hp : [' ', ',', ')', ']', '(', '\n', '.'].any p = false) {next : List Char}
    (h : endsLexeme next = true) : next.takeWhile p = [] := by
  cases next with
  | nil => rfl
  | cons c rest =>
    rw [takeWhile_cons_of_neg (any_eq_false.1 hp c (head_of_endsLexeme h))]

theorem head?_ne_of_endsLexeme {d : Char} (hd : d ∉ [' ', ',', ')', ']', '(', '\n', '.'])
    {next : List Char} (h : endsLexeme next = true) : next.head? ≠ some d := by
  cases next with
  | nil => simp
  | cons c rest =>
    rintro ⟨⟩
    exact hd (head_of_endsLexeme h)

/-! ### Characters of names -/

/-- A table without them holds no blank beyond ASCII. -/
theorem inRuns_of_isBlank {table : List Nat}
    (htable : ∀ code ∈ Text.wideBlanks, inRuns table code = false) (hblank : isBlank c = true)
    (hascii : isAscii c = false) :
    inRuns table c.toNat = false := by
  rw [isBlank, hascii, if_neg Bool.false_ne_true] at hblank
  exact htable c.toNat (contains_iff_mem.1 hblank)

/-- The letters of ASCII. -/
theorem toNat_of_isAlpha (h : c.isAlpha = true) :
    65 ≤ c.toNat ∧ c.toNat ≤ 90 ∨ 97 ≤ c.toNat ∧ c.toNat ≤ 122 := by
  delta Char.isAlpha Char.isUpper Char.isLower at h
  simp only [Bool.or_eq_true, Bool.and_eq_true, decide_eq_true_eq, UInt32.le_iff_toNat_le] at h
  exact h

/-- No blank starts a name. -/
theorem isBlank_of_isNameStart (h : isNameStart c = true) : isBlank c = false := by
  by_contra hblank
  rw [Bool.not_eq_false] at hblank
  simp only [isNameStart, Bool.or_eq_true, beq_iff_eq, isAlphabetic] at h
  rcases h with h | rfl
  -- In ASCII both classes are ranges; beyond it the few blanks are looked up among the letters.
  · by_cases hascii : isAscii c = true
    · simp only [hascii, if_true, isBlank, Bool.or_eq_true, Bool.and_eq_true, decide_eq_true_eq,
        beq_iff_eq] at h hblank
      have hletter := toNat_of_isAlpha h
      rcases hblank with hblank | rfl
      · omega
      · exact absurd hletter (by decide)
    · rw [Bool.not_eq_true] at hascii
      rw [hascii, inRuns_of_isBlank (by decide +kernel) hblank hascii] at h
      exact Bool.false_ne_true h
  · exact absurd hblank (by decide)

theorem isDigit_of_isNameStart (h : isNameStart c = true) : c.isDigit = false := by
  by_contra hdigit
  rw [Bool.not_eq_false] at hdigit
  simp only [Char.isDigit, Bool.and_eq_true, decide_eq_true_eq, UInt32.le_iff_toNat_le] at hdigit
  have hnat : c.val.toNat = c.toNat := rfl
  have hascii : isAscii c = true := by
    simp [isAscii] at hdigit ⊢
    omega
  simp only [isNameStart, Bool.or_eq_true, beq_iff_eq, isAlphabetic, hascii, if_true] at h
  rcases h with h | rfl
  · have hletter := toNat_of_isAlpha h
    simp at hdigit
    omega
  · simp at hdigit

/-! ### Steps that find a lexeme -/

/-- The text of a script may start a line here: it opens no block comment and is no end marker. -/
def StartsLine (context : Context) (text : List Char) : Prop :=
  context.gap = .lineStart →
    "=begin".toList.isPrefixOf text = false ∧ atEndMarker text = false

/-- A step at the spelling finds the token and takes exactly the spelling. -/
def Lexes (context : Context) (token : Token) (spelling next : List Char) : Prop :=
  ∃ c cs, spelling = c :: cs ∧ ∀ line,
    nextStep context line c (cs ++ next) = .ok (.lexeme (.onLine token spelling.length))

/-- A comment starts with `=`, and the end marker with `_`. -/
theorem startsLine_of_ne (hequals : c ≠ '=') (hunderscore : c ≠ '_') :
    StartsLine context (c :: rest) := by
  intro _
  have hbegin : "=begin".toList = ['=', 'b', 'e', 'g', 'i', 'n'] := by simp
  have hend : "__END__".toList = ['_', '_', 'E', 'N', 'D', '_', '_'] := by simp
  rw [atEndMarker, hbegin, hend]
  simp [isPrefixOf, Ne.symm hequals, Ne.symm hunderscore]

/-- Behind a blank, a line may not start. -/
theorem startsLine_of_gap_ne (h : context.gap ≠ .lineStart) (text : List Char) :
    StartsLine context text := fun hgap => absurd hgap h

namespace StartsLine

variable {context : Context} {text : List Char}

theorem no_comment (h : StartsLine context text) :
    (context.gap == .lineStart && "=begin".toList.isPrefixOf text) = false := by
  by_cases hgap : context.gap = .lineStart
  · rw [(h hgap).1, Bool.and_false]
  · rw [beq_eq_false_iff_ne.2 hgap, Bool.false_and]

theorem no_marker (h : StartsLine context text) :
    (context.gap == .lineStart && atEndMarker text) = false := by
  by_cases hgap : context.gap = .lineStart
  · rw [(h hgap).2, Bool.and_false]
  · rw [beq_eq_false_iff_ne.2 hgap, Bool.false_and]

end StartsLine

/-- The marks with which a step may find a lexeme that is no name, number or string. -/
def markChars : List Char :=
  ['(', ')', '[', ']', '{', '}', ',', ':', '.', '=', '<', '>', '!', '|', '^', '&', '+', '-', '*',
    '/', '%', '?']

/-- At a mark a literal is tried. -/
theorem nextStep_mark {line : Nat} (hc : c ∈ markChars) (hstart : StartsLine context (c :: rest)) :
    nextStep context line c rest = literalStep context line c rest := by
  have hplain : ∀ c ∈ markChars, c ≠ '#' ∧ c ≠ '\\' ∧ c ≠ '\n' ∧ isBlank c = false ∧ c ≠ '"' ∧
      c ≠ '\'' ∧ c ≠ '\x60' ∧ c.isDigit = false ∧ c ≠ '@' ∧ c ≠ '$' ∧ isNameStart c = false :=
    forall_mem_of_all (by decide)
  -- The step asks for one class of characters after the other, and a mark is in none of them.
  obtain ⟨h1, h2, h3, h4, h5, h6, h7, h8, h9, h10, h11⟩ := hplain c hc
  unfold nextStep
  simp only [hstart.no_comment, hstart.no_marker]
  simp [h1, h2, h3, h4, h5, h6, h7, h8, h9, h10, h11]

/-- At the first character of a name the name is read. -/
theorem nextStep_name {line : Nat} (hc : isNameStart c = true)
    (hstart : StartsLine context (c :: rest)) :
    nextStep context line c rest = .ok (.lexeme (Lexeme.name context (c :: rest))) := by
  have hother : ∀ d ∈ ['#', '\\', '\n', '"', '\'', '\x60', '@', '$'], c ≠ d := by
    rintro d hd rfl
    have hnone : ∀ d ∈ ['#', '\\', '\n', '"', '\'', '\x60', '@', '$'], isNameStart d = false :=
      forall_mem_of_all (by decide)
    rw [hnone c hd] at hc
    exact Bool.false_ne_true hc
  simp only [mem_cons, not_mem_nil, or_false, forall_eq_or_imp, forall_eq] at hother
  obtain ⟨h1, h2, h3, h4, h5, h6, h7, h8⟩ := hother
  unfold nextStep
  simp only [hstart.no_comment, hstart.no_marker]
  simp [h1, h2, h3, h4, h5, h6, h7, h8, hc, isBlank_of_isNameStart hc, isDigit_of_isNameStart hc]

/-! ### Names -/

/-- The parts of a name: its letters and digits, and the mark that may end it. -/
structure NameParts (name stem mark : List Char) : Prop where
  eq : name = stem ++ mark
  start : ∃ c cs, stem = c :: cs ∧ isNameStart c = true
  chars : ∀ c ∈ stem, isNameChar c = true
  mark : mark = [] ∨ mark = ['?'] ∨ mark = ['!']

/-- A name is a stem and a mark, if it has one. -/
theorem exists_nameParts {name : List Char} (h : isNameText name = true) :
    ∃ stem mark, NameParts name stem mark := by
  simp only [isNameText, Bool.and_eq_true, Option.any_eq_true, decide_eq_true_eq] at h
  obtain ⟨⟨⟨c, hhead, hc⟩, hall⟩, hlength⟩ := h
  have hsplit : trimRight isNameMark name ++ name.rtakeWhile isNameMark = name :=
    rdropWhile_append_rtakeWhile
  refine ⟨trimRight isNameMark name, name.rtakeWhile isNameMark, hsplit.symm, ?_, ?_, ?_⟩
  · -- The first character is no mark, so it belongs to the stem.
    cases hstem : trimRight isNameMark name with
    | nil =>
      rw [hstem, nil_append] at hsplit
      have hmem : c ∈ name.rtakeWhile isNameMark := by
        rw [hsplit]
        exact mem_of_head? hhead
      have hmark := mem_rtakeWhile_imp hmem
      simp only [isNameMark, Bool.or_eq_true, beq_iff_eq] at hmark
      rcases hmark with rfl | rfl <;> exact absurd hc (by decide)
    | cons d ds =>
      refine ⟨d, ds, rfl, ?_⟩
      rw [← hsplit, hstem, cons_append, head?_cons, Option.some.injEq] at hhead
      rw [hhead]
      exact hc
  · intro d hd
    exact all_eq_true.1 hall d hd
  · -- At most one character is a mark, and there are two marks.
    have hsum := congrArg List.length hsplit
    rw [length_append] at hsum
    have hshort : (name.rtakeWhile isNameMark).length ≤ 1 := by omega
    have hmarks : ∀ d ∈ name.rtakeWhile isNameMark, isNameMark d = true :=
      fun d hd => mem_rtakeWhile_imp hd
    match name.rtakeWhile isNameMark, hshort, hmarks with
    | [], _, _ => exact .inl rfl
    | [d], _, hmarks =>
      have hd := hmarks d (by simp)
      simp only [isNameMark, Bool.or_eq_true, beq_iff_eq] at hd
      rcases hd with rfl | rfl
      · exact .inr (.inl rfl)
      · exact .inr (.inr rfl)

namespace NameParts

variable {name stem mark : List Char}

/-- The stem is what is read before the mark. -/
theorem takeWhile_append (h : NameParts name stem mark) (hnext : next.takeWhile isNameChar = []) :
    (name ++ next).takeWhile isNameChar = stem := by
  have hmark : (mark ++ next).takeWhile isNameChar = [] := by
    rcases h.mark with rfl | rfl | rfl
    · exact hnext
    · rw [cons_append, takeWhile_cons_of_neg (by decide)]
    · rw [cons_append, takeWhile_cons_of_neg (by decide)]
  rw [h.eq, List.append_assoc, takeWhile_append_of_pos h.chars, hmark, append_nil]

theorem drop_append (h : NameParts name stem mark) (next : List Char) :
    (name ++ next).drop stem.length = mark ++ next := by
  rw [h.eq, List.append_assoc, drop_left]

theorem exists_cons (h : NameParts name stem mark) :
    ∃ c cs, name = c :: cs ∧ isNameStart c = true := by
  obtain ⟨c, cs, hstem, hc⟩ := h.start
  exact ⟨c, cs ++ mark, by rw [h.eq, hstem, cons_append], hc⟩

/-- The mark is found again where no character behind it changes its meaning. -/
theorem nameMark_append (h : NameParts name stem mark)
    (hnext : ∀ c ∈ ['?', '!', '='], next.head? ≠ some c) :
    Lexeme.nameMark (mark ++ next) = mark := by
  simp only [mem_cons, not_mem_nil, or_false, forall_eq_or_imp, forall_eq] at hnext
  obtain ⟨hquestion, hbang, hequals⟩ := hnext
  rcases h.mark with rfl | rfl | rfl
  · cases next with
    | nil => rfl
    | cons c rest =>
      rw [head?_cons, ne_eq, Option.some.injEq] at hquestion hbang
      simp [Lexeme.nameMark, hquestion, hbang]
  · simp [Lexeme.nameMark, hequals]
  · simp [Lexeme.nameMark, hequals]

/-- The word that the text of a name starts with is the name. -/
theorem name_append (h : NameParts name stem mark) (context : Context)
    (hchars : next.takeWhile isNameChar = []) (hnext : ∀ c ∈ ['?', '!', '='], next.head? ≠ some c) :
    Lexeme.name context (name ++ next) =
      if !context.afterDot && Lexeme.startsWithColon next && mark != ['?'] then
        .onLine (.label (String.ofList name)) (name.length + 1)
      else if (name.take 1).any isUppercase then .onLine (.const (String.ofList name)) name.length
      else .onLine (.word (String.ofList name)) name.length := by
  have hdrop : (name ++ next).drop name.length = next := drop_left
  unfold Lexeme.name
  simp only [h.takeWhile_append hchars, h.drop_append, h.nameMark_append hnext, ← h.eq, hdrop]

/-- A name other than the end marker does not end the script. -/
theorem startsLine (h : NameParts name stem mark) (context : Context)
    (hmarker : name ≠ "__END__".toList) (hchars : next.takeWhile isNameChar = []) :
    StartsLine context (name ++ next) := by
  obtain ⟨c, cs, hname, hc⟩ := h.exists_cons
  intro _
  constructor
  · have hequals : c ≠ '=' := by
      rintro rfl
      exact absurd hc (by decide)
    rw [hname]
    simp [isPrefixOf, Ne.symm hequals]
  · by_contra hend
    simp only [Bool.not_eq_false, atEndMarker, Bool.and_eq_true] at hend
    obtain ⟨hstarts, hbehind⟩ := hend
    obtain ⟨rest, hrest⟩ := isPrefixOf_iff_prefix.1 hstarts
    have hlength : "__END__".toList.length = 7 := by simp
    have hdrop : (name ++ next).drop 7 = rest := by
      rw [← hrest, ← hlength, drop_left]
    rw [hdrop] at hbehind
    -- The marker is all that the text has of a name, so it is the stem.
    have hstop : rest.takeWhile isNameChar = [] := by
      cases rest with
      | nil => rfl
      | cons d ds =>
        simp only [take_succ_cons, take_zero, all_cons, all_nil, Bool.and_true,
          Bool.or_eq_true, beq_iff_eq] at hbehind
        rcases hbehind with rfl | rfl <;> rw [takeWhile_cons_of_neg (by decide)]
    have hstem : stem = "__END__".toList := by
      rw [← h.takeWhile_append hchars, ← hrest,
        takeWhile_append_of_pos (all_eq_true.1 (by decide)), hstop, append_nil]
    have hmark : mark ++ next = rest := by
      rw [← h.drop_append next, ← hrest, hstem]
      exact drop_left
    -- With a mark behind it the line would go on.
    rcases h.mark with hnone | hquestion | hbang
    · exact hmarker (by rw [h.eq, hstem, hnone, append_nil])
    · rw [← hmark, hquestion] at hbehind
      simp at hbehind
    · rw [← hmark, hbang] at hbehind
      simp at hbehind

end NameParts

/-- A word, which starts with no capital, and a constant, which does. -/
theorem lexes_name {name : String} (hname : isNameText name.toList = true)
    (hstart : StartsLine context (name.toList ++ next)) (hnext : endsLexeme next = true) :
    Lexes context (if (name.toList.take 1).any isUppercase then .const name else .word name)
      name.toList next := by
  obtain ⟨stem, mark, hparts⟩ := exists_nameParts hname
  obtain ⟨c, cs, hcons, hc⟩ := hparts.exists_cons
  have hchars := takeWhile_eq_nil_of_endsLexeme (p := isNameChar) (by decide) hnext
  have hends : ∀ c ∈ ['?', '!', '='], c ∉ [' ', ',', ')', ']', '(', '\n', '.'] :=
    forall_mem_of_all (by decide)
  have hheads : ∀ c ∈ ['?', '!', '='], next.head? ≠ some c :=
    fun c hc => head?_ne_of_endsLexeme (hends c hc) hnext
  -- no colon follows, so it is no label
  have hcolon : Lexeme.startsWithColon next = false := by
    have := head?_ne_of_endsLexeme (d := ':') (by decide) hnext
    cases next with
    | nil => rfl
    | cons d ds =>
      rw [head?_cons, ne_eq, Option.some.injEq] at this
      simp [Lexeme.startsWithColon, this]
  refine ⟨c, cs, hcons, fun line => ?_⟩
  rw [hcons, cons_append] at hstart
  rw [nextStep_name hc hstart, ← cons_append, ← hcons,
    hparts.name_append context hchars hheads, hcolon, String.ofList_toList, if_neg (by simp)]
  split <;> rfl

/-- A name and a colon are a label before a blank. -/
theorem lexes_label {name : String} {tail : List Char} (hname : isNameText name.toList = true)
    (hmark : name.toList.getLast? ≠ some '?') (hdot : context.afterDot = false)
    (hgap : context.gap ≠ .lineStart) :
    Lexes context (.label name) (name.toList ++ [':']) (' ' :: tail) := by
  obtain ⟨stem, mark, hparts⟩ := exists_nameParts hname
  obtain ⟨c, cs, hcons, hc⟩ := hparts.exists_cons
  -- A name with a question mark would be a word, and the colon that of a ternary.
  have hquestion : (mark != ['?']) = true := by
    rcases hparts.mark with rfl | rfl | rfl
    · rfl
    · rw [hparts.eq, getLast?_concat] at hmark
      exact absurd rfl hmark
    · rfl
  have hchars : (':' :: ' ' :: tail).takeWhile isNameChar = [] :=
    takeWhile_cons_of_neg (by decide)
  have hheads : ∀ c ∈ ['?', '!', '='], (':' :: ' ' :: tail).head? ≠ some c := by
    simp
  refine ⟨c, cs ++ [':'], by rw [hcons, cons_append], fun line => ?_⟩
  rw [List.append_assoc, singleton_append, nextStep_name hc (startsLine_of_gap_ne hgap _),
    ← cons_append, ← hcons, hparts.name_append context hchars hheads, if_pos,
    String.ofList_toList, length_append, length_singleton]
  rw [hdot, hquestion]
  rfl

/-! ### Strings and symbols -/

/-- A string literal is read back as its content, whatever follows. -/
theorem lexes_str (context : Context) (content : String) (next : List Char) :
    Lexes context (.str [.text content]) (stringText content).toList next := by
  have htext : (stringText content).toList = '"' :: ((escape '"' content).toList ++ ['"']) := by
    simp [stringText]
  have hstart : StartsLine context ('"' :: ((escape '"' content).toList ++ ['"'] ++ next)) :=
    startsLine_of_ne (by decide) (by decide)
  refine ⟨'"', _, htext, fun line => ?_⟩
  unfold nextStep
  simp only [hstart.no_comment, hstart.no_marker]
  rw [List.append_assoc, singleton_append]
  simp [Lexeme.closedBy, scanBody_escape (.inl rfl), isBlank, isAscii, htext, Except.map, bind,
    Except.bind, Lexeme.onLine, ← String.length_toList]
  omega

theorem literalStep_colon (context : Context) (line : Nat) (rest : List Char) :
    literalStep context line ':' rest =
      Step.orElse (Lexeme.symbol? context line rest) fun _ => markStep ':' rest := rfl

/-- A colon and a symbol's name behind it. -/
theorem lexes_bareSymbol {stem mark next : List Char} (hallows : context.allowsSymbol = true)
    (hstem : ∃ c cs, stem = c :: cs ∧ isNameStart c = true)
    (hchars : ∀ c ∈ stem, isNameChar c = true) (hmark : mark ∈ [[], ['?'], ['!'], ['=']])
    (hnext : endsLexeme next = true) :
    Lexes context (.symbol (String.ofList (stem ++ mark))) (':' :: (stem ++ mark)) next := by
  obtain ⟨c, cs, rfl, hc⟩ := hstem
  -- Neither a scope nor a quoted symbol starts like this.
  have hne : ∀ d ∈ [':', '"'], c ≠ d := by
    rintro d hd rfl
    have hnone : ∀ d ∈ [':', '"'], isNameStart d = false := forall_mem_of_all (by decide)
    rw [hnone c hd] at hc
    exact Bool.false_ne_true hc
  have hstop : (mark ++ next).takeWhile isNameChar = [] := by
    simp only [mem_cons, not_mem_nil, or_false] at hmark
    rcases hmark with rfl | rfl | rfl | rfl
    · exact takeWhile_eq_nil_of_endsLexeme (by decide) hnext
    all_goals exact takeWhile_cons_of_neg (by decide)
  have htake : (c :: (cs ++ (mark ++ next))).takeWhile isNameChar = c :: cs := by
    rw [← cons_append, takeWhile_append_of_pos hchars, hstop, append_nil]
  have hdrop : (c :: (cs ++ (mark ++ next))).drop (c :: cs).length = mark ++ next := by
    rw [← cons_append, drop_left]
  -- The mark is taken once, since what follows is no mark, no sign and no arrow.
  have hsymbolMark : Lexeme.symbolMark (mark ++ next) = mark := by
    have hquestion := head?_ne_of_endsLexeme (d := '?') (by decide) hnext
    have hbang := head?_ne_of_endsLexeme (d := '!') (by decide) hnext
    have hequals := head?_ne_of_endsLexeme (d := '=') (by decide) hnext
    have hgreater := head?_ne_of_endsLexeme (d := '>') (by decide) hnext
    simp only [mem_cons, not_mem_nil, or_false] at hmark
    rcases hmark with rfl | rfl | rfl | rfl
    · cases next with
      | nil => rfl
      | cons d ds =>
        rw [head?_cons, ne_eq, Option.some.injEq] at hquestion hbang hequals
        simp [Lexeme.symbolMark, hquestion, hbang, hequals]
    all_goals simp [Lexeme.symbolMark, hequals, hgreater]
  refine ⟨':', c :: cs ++ mark, rfl, fun line => ?_⟩
  rw [nextStep_mark (by decide) (startsLine_of_ne (by decide) (by decide)), literalStep_colon,
    List.append_assoc, cons_append]
  unfold Lexeme.symbol?
  simp only [head?_cons, hallows, htake, hdrop, hsymbolMark, hc]
  simp [hne, Step.orElse, Lexeme.onLine, Nat.add_comm]

/-- A colon and a quoted text. -/
theorem lexes_quotedSymbol (hallows : context.allowsSymbol = true) (name : String)
    (next : List Char) :
    Lexes context (.symbol name) (':' :: (stringText name).toList) next := by
  have htext : (stringText name).toList = '"' :: ((escape '"' name).toList ++ ['"']) := by
    simp [stringText]
  refine ⟨':', _, rfl, fun line => ?_⟩
  rw [nextStep_mark (by decide) (startsLine_of_ne (by decide) (by decide)), literalStep_colon,
    htext, cons_append, List.append_assoc, singleton_append]
  unfold Lexeme.symbol?
  simp [hallows, Lexeme.closedBy, scanBody_escape (.inl rfl), Except.map, bind, Except.bind,
    Step.orElse, Lexeme.onLine, Lexeme.symbolText, ← String.length_toList, String.join]
  omega

/-- The parts of a method that assigns: a name without a mark, and the sign. -/
theorem exists_nameParts_of_isSetterText {name : List Char} (h : isSetterText name = true) :
    ∃ stem, name = stem ++ ['='] ∧ NameParts stem stem [] := by
  simp only [isSetterText, Bool.and_eq_true, beq_iff_eq, Bool.not_eq_true'] at h
  obtain ⟨⟨hlast, hname⟩, hmarked⟩ := h
  obtain ⟨stem, mark, hparts⟩ := exists_nameParts hname
  -- the name before the sign has no mark of its own
  have hmark : mark = [] := by
    have heq := hparts.eq
    rcases hparts.mark with rfl | rfl | rfl
    · rfl
    all_goals
      rw [heq, getLast?_concat] at hmarked
      exact absurd hmarked (by decide)
  subst hmark
  have heq : name.dropLast = stem := by
    rw [hparts.eq, append_nil]
  refine ⟨stem, ?_, (append_nil stem).symm, hparts.start, hparts.chars, .inl rfl⟩
  rw [← heq]
  exact (dropLast_append_getLast? '=' hlast).symm

/-- A symbol is read back as its name, in quotes or without. -/
theorem lexes_symbol {name : String} (hallows : context.allowsSymbol = true)
    (hnext : endsLexeme next = true) :
    Lexes context (.symbol name) (symbolText name).toList next := by
  -- The writer leaves the quotes away for a name, and for a name with the sign of a setter.
  by_cases hname : isNameText name.toList = true
  · obtain ⟨stem, mark, hparts⟩ := exists_nameParts hname
    have hmark : mark ∈ [[], ['?'], ['!'], ['=']] := by
      rcases hparts.mark with rfl | rfl | rfl <;> decide
    have hbare := lexes_bareSymbol hallows hparts.start hparts.chars hmark hnext
    rw [← hparts.eq, String.ofList_toList] at hbare
    simpa [symbolText, hname] using hbare
  by_cases hsetter : isSetterText name.toList = true
  · obtain ⟨stem, heq, hparts⟩ := exists_nameParts_of_isSetterText hsetter
    have hmark : ['='] ∈ [[], ['?'], ['!'], ['=']] := by decide
    have hbare := lexes_bareSymbol hallows hparts.start hparts.chars hmark hnext
    rw [← heq, String.ofList_toList] at hbare
    simpa [symbolText, hsetter] using hbare
  · simpa [symbolText, hname, hsetter] using lexes_quotedSymbol hallows name next

/-! ### Integers -/

/-- The decimal digits. -/
def digitChars : List Char := ['0', '1', '2', '3', '4', '5', '6', '7', '8', '9']

theorem mem_digitChars (h : c.isDigit = true) : c ∈ digitChars := by
  have hall : ∀ n < 58, (Char.ofNat n).isDigit = true → Char.ofNat n ∈ digitChars := by decide
  have hbound : c.toNat < 58 := by
    have hnat : c.val.toNat = c.toNat := rfl
    simp [Char.isDigit, UInt32.le_iff_toNat_le] at h
    omega
  have hc := hall c.toNat hbound
  rw [Char.ofNat_toNat] at hc
  exact hc h

/-- What a decimal digit is: it counts for the value, and is no sign inside a numeral. -/
theorem digit_spec (h : c.isDigit = true) :
    isNumeralChar 10 c = true ∧ c ≠ '_' ∧ Number.digitValue c = c.toNat - '0'.toNat := by
  have hall : ∀ c ∈ digitChars, isNumeralChar 10 c = true ∧ c ≠ '_' ∧
      Number.digitValue c = c.toNat - '0'.toNat :=
    forall_mem_of_all (by decide)
  exact hall c (mem_digitChars h)

/-- At a digit a numeral is read. -/
theorem nextStep_digit (context : Context) (line : Nat) (hc : c.isDigit = true) (rest : List Char) :
    nextStep context line c rest =
      (scanNumeral (c :: rest)).map fun (token, length) => .lexeme (.onLine token length) := by
  have hplain : ∀ c ∈ digitChars, c ≠ '=' ∧ c ≠ '_' ∧ c ≠ '#' ∧ c ≠ '\\' ∧ c ≠ '\n' ∧
      isBlank c = false ∧ c ≠ '"' ∧ c ≠ '\'' ∧ c ≠ '\x60' :=
    forall_mem_of_all (by decide)
  obtain ⟨h1, h2, h3, h4, h5, h6, h7, h8, h9⟩ := hplain c (mem_digitChars hc)
  have hstart : StartsLine context (c :: rest) := startsLine_of_ne h1 h2
  unfold nextStep
  simp only [hstart.no_comment, hstart.no_marker]
  simp [h3, h4, h5, h6, h7, h8, h9, hc]

/-- The value of the digits is that of the library. -/
theorem ofDigits_ten {digits : List Char} (h : ∀ c ∈ digits, c.isDigit = true) :
    Number.ofDigits 10 digits = Nat.ofDigitChars 10 digits 0 := by
  rw [Number.ofDigits, Nat.ofDigitChars_eq_foldl]
  apply foldl_ext
  intro value c hc
  rw [(digit_spec (h c hc)).2.2, Nat.mul_comm]

theorem isDigit_of_mem_digits {n : Nat} (h : c ∈ Nat.toDigits 10 n) : c.isDigit = true :=
  Nat.isDigit_of_mem_toDigits (by decide) (by decide) h

/-- Only the numeral of zero starts with a zero. -/
theorem head?_toDigits {n : Nat} (h : (Nat.toDigits 10 n).head? = some '0') : n = 0 := by
  induction n using Nat.strong_induction_on with
  | _ n ih =>
    by_cases hsmall : n < 10
    · rw [Nat.toDigits_of_lt_base hsmall] at h
      have hdigit : ∀ m < 10, Nat.digitChar m = '0' → m = 0 := by decide
      exact hdigit n hsmall (Option.some.inj h)
    · have hge : 10 ≤ n := Nat.le_of_not_lt hsmall
      rw [Nat.toDigits_of_base_le (by decide) hge,
        head?_append_of_ne_nil _ Nat.toDigits_ne_nil] at h
      have := ih (n / 10) (by omega) h
      omega

/-- No digits of a number are taken for the mark of a radix. -/
theorem radixMark?_toDigits (n : Nat) (hnext : endsLexeme next = true) :
    radixMark? (Nat.toDigits 10 n ++ next) = none := by
  -- A radix is marked by a leading zero, and only the numeral of zero has one.
  by_cases hzero : n = 0
  · subst hzero
    rw [Nat.toDigits_zero, singleton_append]
    cases next with
    | nil => rfl
    | cons c rest =>
      have hc := head_of_endsLexeme hnext
      simp only [mem_cons, not_mem_nil, or_false] at hc
      rcases hc with rfl | rfl | rfl | rfl | rfl | rfl | rfl <;> rfl
  · cases hdigits : Nat.toDigits 10 n with
    | nil => exact absurd hdigits Nat.toDigits_ne_nil
    | cons d ds =>
      have hd : d ≠ '0' := by
        rintro rfl
        exact hzero (head?_toDigits (by rw [hdigits, head?_cons]))
      simp [radixMark?, hd]

/-- What ends a numeral is neither a fraction nor an exponent. -/
theorem fraction_eq_nil_of_endsLexeme (h : endsLexeme next = true) :
    fraction next = [] ∧ exponentPart next = [] := by
  cases next with
  | nil => exact ⟨rfl, rfl⟩
  | cons c rest =>
    have hc := head_of_endsLexeme h
    simp only [mem_cons, not_mem_nil, or_false] at hc
    rcases hc with rfl | rfl | rfl | rfl | rfl | rfl | rfl
    case inr.inr.inr.inr.inr.inr =>
      -- the dots of a range: no digit stands behind the first
      cases rest with
      | nil => exact ⟨rfl, rfl⟩
      | cons d ds =>
        simp only [endsLexeme, head?_cons, Bool.or_eq_true, Bool.and_eq_true, beq_iff_eq,
          Option.some.injEq] at h
        rcases h with h | ⟨-, rfl⟩
        · exact absurd h (by decide)
        · exact ⟨rfl, rfl⟩
    all_goals exact ⟨rfl, rfl⟩

/-- A number below the bound is read back from its digits. -/
theorem lexes_int {n : Nat} (hn : n < intBound) (hnext : endsLexeme next = true) :
    Lexes context (.int n) (toString n).toList next := by
  have htext : (toString n).toList = Nat.toDigits 10 n := by
    simp
  have hdigits : ∀ c ∈ Nat.toDigits 10 n, c.isDigit = true := fun c => isDigit_of_mem_digits
  have hwhole : (Nat.toDigits 10 n ++ next).takeWhile (isNumeralChar 10) = Nat.toDigits 10 n := by
    rw [takeWhile_append_of_pos fun c hc => (digit_spec (hdigits c hc)).1,
      takeWhile_eq_nil_of_endsLexeme (by decide) hnext, append_nil]
  have hplain : withoutUnderscores (Nat.toDigits 10 n) = Nat.toDigits 10 n := by
    rw [withoutUnderscores, filter_eq_self]
    intro c hc
    simpa using (digit_spec (hdigits c hc)).2.1
  have hvalue : Number.ofDigits 10 (Nat.toDigits 10 n) = n := by
    rw [ofDigits_ten hdigits, Nat.ofDigitChars_ten_toDigits]
  -- no mark of a radix, no fraction and no exponent
  have hscan : scanNumeral (Nat.toDigits 10 n ++ next) =
      .ok (.int n, (Nat.toDigits 10 n).length) := by
    unfold scanNumeral
    simp [radixMark?_toDigits n hnext, hwhole, fraction_eq_nil_of_endsLexeme hnext, hplain,
      integerToken, hvalue, hn]
  cases hcons : Nat.toDigits 10 n with
  | nil => exact absurd hcons Nat.toDigits_ne_nil
  | cons d ds =>
    have hd : d.isDigit = true := hdigits d (by simp [hcons])
    refine ⟨d, ds, by rw [htext, hcons], fun line => ?_⟩
    rw [nextStep_digit context line hd, ← cons_append, ← hcons, hscan, htext]
    rfl

/-! ### Operators and marks -/

theorem lexes_punctuation (context : Context) {token : Token}
    (h : (c, token) ∈ [('(', .lparen), (')', .rparen), ('[', .lbracket), (']', .rbracket),
      ('{', .lbrace), ('}', .rbrace), (',', Token.comma)]) (next : List Char) :
    Lexes context token [c] next := by
  refine ⟨c, [], rfl, fun line => ?_⟩
  simp only [mem_cons, Prod.mk.injEq, not_mem_nil, or_false] at h
  rcases h with ⟨rfl, rfl⟩ | ⟨rfl, rfl⟩ | ⟨rfl, rfl⟩ | ⟨rfl, rfl⟩ | ⟨rfl, rfl⟩ | ⟨rfl, rfl⟩ |
    ⟨rfl, rfl⟩ <;>
  · rw [nextStep_mark (by decide) (startsLine_of_ne (by decide) (by decide))]
    rfl

/-- An operator of the table that the text goes on with would be longer than `w`. -/
theorem operator?_append {w next : List Char}
    (h : ∀ d, next.head? = some d → ∀ row ∈ Lexeme.operatorTable, ¬ w ++ [d] <+: row.1.toList) :
    Lexeme.operator? (w ++ next) = Lexeme.operator? w := by
  have hsame : ∀ row ∈ Lexeme.operatorTable,
      row.1.toList.isPrefixOf (w ++ next) = row.1.toList.isPrefixOf w := by
    intro row hrow
    rw [Bool.eq_iff_iff, isPrefixOf_iff_prefix, isPrefixOf_iff_prefix]
    refine ⟨fun hstarts => ?_, fun hstarts => hstarts.trans (List.prefix_append w next)⟩
    -- An operator that is longer than `w` would start with `w` and one character more.
    by_cases hlength : row.1.toList.length ≤ w.length
    · exact prefix_of_prefix_length_le hstarts (List.prefix_append w next) hlength
    cases next with
    | nil => rwa [append_nil] at hstarts
    | cons d ds =>
      have hlonger : w ++ [d] <+: w ++ d :: ds := by
        rw [prefix_append_right_inj]
        exact ⟨ds, rfl⟩
      refine absurd (prefix_of_prefix_length_le hlonger hstarts ?_) (h d rfl row hrow)
      rw [length_append, length_singleton]
      omega
  unfold Lexeme.operator?
  congr 1
  exact find?_congr hsame

/-- No operator has a blank in it. -/
theorem not_prefix_of_blank (w : List Char) (row : String × Token)
    (hrow : row ∈ Lexeme.operatorTable) : ¬ w ++ [' '] <+: row.1.toList := by
  have hblank : ∀ row ∈ Lexeme.operatorTable, ' ' ∉ row.1.toList := by decide +kernel
  exact fun hstarts => hblank row hrow (hstarts.subset (by simp))

/-- A blank ends an operator. -/
theorem operator?_blank (w tail : List Char) :
    Lexeme.operator? (w ++ ' ' :: tail) = Lexeme.operator? w := by
  refine operator?_append fun d hd row hrow => ?_
  rw [← Option.some.inj hd]
  exact not_prefix_of_blank w row hrow

/-- No mark but `%`, `/` and `<<` opens a literal, and these do not behind a value and before a
blank. -/
theorem literalStep_eq_markStep {line : Nat} (hcolon : c ≠ ':')
    (hone : c = '%' ∨ c = '/' → context.allowsLiteral rest.head? = false)
    (htwo : c = '<' → rest.head? = some '<' → context.allowsLiteral (rest.drop 1).head? = false) :
    literalStep context line c rest = markStep c rest := by
  unfold literalStep
  rw [if_neg (by simpa using hcolon), if_neg, if_neg, if_neg]
  -- the cases from the last to the first: `<<`, `/`, `%`
  · rw [Bool.and_eq_true, Bool.and_eq_true, beq_iff_eq, beq_iff_eq]
    rintro ⟨⟨hless, hhead⟩, hallows⟩
    rw [htwo hless hhead] at hallows
    exact Bool.false_ne_true hallows
  · rw [Bool.and_eq_true, beq_iff_eq]
    rintro ⟨hslash, hallows⟩
    rw [hone (.inr hslash)] at hallows
    exact Bool.false_ne_true hallows
  · rw [Bool.and_eq_true, beq_iff_eq]
    rintro ⟨hpercent, hallows⟩
    rw [hone (.inl hpercent)] at hallows
    exact Bool.false_ne_true hallows

/-- Behind a value and before a blank no literal starts. -/
theorem allowsLiteral_blank (h : context.afterValue = true) :
    context.allowsLiteral (some ' ') = false := by
  have hblank : isBlank ' ' = true := by decide
  simp [Context.allowsLiteral, Context.startsArgument, h, hblank]

/-- The first characters of the operators that are no punctuation and start no symbol. -/
def operatorChars : List Char :=
  ['=', '<', '>', '!', '|', '^', '&', '+', '-', '*', '/', '%', '?']

theorem markStep_eq {lexeme : Lexeme} (hnone : Lexeme.punctuation? c rest = none)
    (h : Lexeme.operator? (c :: rest) = some lexeme) : markStep c rest = .ok (.lexeme lexeme) := by
  simp only [markStep, hnone, h]

theorem markStep_operator (hc : c ∈ operatorChars) {lexeme : Lexeme}
    (h : Lexeme.operator? (c :: rest) = some lexeme) : markStep c rest = .ok (.lexeme lexeme) := by
  refine markStep_eq ?_ h
  simp only [operatorChars, mem_cons, not_mem_nil, or_false] at hc
  rcases hc with rfl | rfl | rfl | rfl | rfl | rfl | rfl | rfl | rfl | rfl | rfl | rfl | rfl <;> rfl

/-- An operator between two blanks is at most as long as the literal that its first character might
open. -/
def divides : List Char → Bool
  | [] => false
  | c :: cs =>
    operatorChars.contains c && (!(c == '%' || c == '/') || cs.isEmpty)
      && (!(c == '<' && cs.head? == some '<') || cs == ['<'])

/-- An operator behind a value and before a blank. -/
theorem lexes_operator {w : List Char} {token : Token} (hvalue : context.afterValue = true)
    (hgap : context.gap ≠ .lineStart) (hdivides : divides w = true)
    (hoperator : Lexeme.operator? w = some (.onLine token w.length)) (tail : List Char) :
    Lexes context token w (' ' :: tail) := by
  cases w with
  | nil => exact absurd hdivides (by decide)
  | cons c cs =>
    simp only [divides, Bool.and_eq_true, contains_iff_mem, Bool.or_eq_true, beq_iff_eq,
      Bool.not_eq_true', Bool.or_eq_false_iff, beq_eq_false_iff_ne, List.isEmpty_iff] at hdivides
    obtain ⟨⟨hc, hone⟩, htwo⟩ := hdivides
    have hmark : c ∈ markChars ∧ c ≠ ':' := by
      have hall : ∀ c ∈ operatorChars, c ∈ markChars ∧ c ≠ ':' := forall_mem_of_all (by decide)
      exact hall c hc
    refine ⟨c, cs, rfl, fun line => ?_⟩
    rw [nextStep_mark hmark.1 (startsLine_of_gap_ne hgap _),
      literalStep_eq_markStep hmark.2 ?one ?two]
    · refine markStep_operator hc ?_
      rw [← cons_append, operator?_blank]
      exact hoperator
    -- A percent or a slash stands alone, so that the blank is right behind it.
    case one =>
      intro hopens
      have hnil : cs = [] := by
        rcases hone with hone | hone
        · rcases hopens with hopens | hopens
          · exact absurd hopens hone.1
          · exact absurd hopens hone.2
        · exact hone
      rw [hnil]
      exact allowsLiteral_blank hvalue
    -- Two angles are the shift operator, and a heredoc needs a name behind them.
    case two =>
      intro hless hhead
      have hshift : cs = ['<'] := by
        cases cs with
        | nil => exact absurd hhead (by simp)
        | cons d ds =>
          rw [cons_append, head?_cons] at hhead
          rcases htwo with htwo | htwo
          · simp [hless, Option.some.inj hhead] at htwo
          · exact htwo
      rw [hshift]
      exact allowsLiteral_blank hvalue

/-- An operator between blanks is read as it is. -/
theorem lexes_binary (op : BinaryOp) (hvalue : context.afterValue = true)
    (hgap : context.gap ≠ .lineStart) (tail : List Char) :
    Lexes context (.op (.binary op)) op.text.toList (' ' :: tail) := by
  have hspec : divides op.text.toList = true ∧
      Lexeme.operator? op.text.toList =
        some (.onLine (.op (.binary op)) op.text.toList.length) := by
    cases op <;> decide +kernel
  exact lexes_operator hvalue hgap hspec.1 hspec.2 tail

theorem lexes_question (hvalue : context.afterValue = true) (hgap : context.gap ≠ .lineStart)
    (tail : List Char) :
    Lexes context (.op .question) ['?'] (' ' :: tail) := by
  apply lexes_operator hvalue hgap <;> decide +kernel

theorem lexes_arrow (hvalue : context.afterValue = true) (hgap : context.gap ≠ .lineStart)
    (tail : List Char) :
    Lexes context .arrow ['=', '>'] (' ' :: tail) := by
  apply lexes_operator hvalue hgap <;> decide +kernel

/-- A colon before a blank starts no symbol. -/
theorem lexes_colon (context : Context) (tail : List Char) :
    Lexes context (.op .colon) [':'] (' ' :: tail) := by
  have hsymbol : ∀ line, Lexeme.symbol? context line (' ' :: tail) = .ok none := by
    intro line
    have hname : isNameStart ' ' = false := by decide
    simp [Lexeme.symbol?, hname]
  have hoperator : Lexeme.operator? [':'] = some (.onLine (.op .colon) 1) := by decide +kernel
  refine ⟨':', [], rfl, fun line => ?_⟩
  rw [nil_append, nextStep_mark (by decide) (startsLine_of_ne (by decide) (by decide)),
    literalStep_colon, hsymbol line]
  show markStep ':' (' ' :: tail) = _
  refine markStep_eq rfl ?_
  rw [← singleton_append, operator?_blank, hoperator]
  rfl

/-- The minus of a number touches its digits. -/
theorem lexes_minus (context : Context) {d : Char} (hd : d.isDigit = true) (tail : List Char) :
    Lexes context (.op (.binary .sub)) ['-'] (d :: tail) := by
  -- no longer operator starts with a minus and a digit
  have hlonger : ∀ d ∈ digitChars, ∀ row ∈ Lexeme.operatorTable,
      ¬ ['-'] ++ [d] <+: row.1.toList :=
    forall_mem_of_all (by decide +kernel)
  have hoperator : Lexeme.operator? ['-'] = some (.onLine (.op (.binary .sub)) 1) := by
    decide +kernel
  refine ⟨'-', [], rfl, fun line => ?_⟩
  rw [nil_append, nextStep_mark (by decide) (startsLine_of_ne (by decide) (by decide)),
    literalStep_eq_markStep (by decide) (by simp) (by simp)]
  refine markStep_operator (by decide) ?_
  rw [← singleton_append, operator?_append, hoperator]
  · rfl
  · intro e he
    rw [← Option.some.inj he]
    exact hlonger d (mem_digitChars hd)

/-- Two dots, or three, that no further dot follows. -/
theorem lexes_range (context : Context) (exclusive : Bool) (hnext : next.head? ≠ some '.') :
    Lexes context (.op (.range exclusive)) (Operator.range exclusive).text.toList next := by
  obtain ⟨cs, htext⟩ : ∃ cs, (Operator.range exclusive).text.toList = '.' :: '.' :: cs := by
    cases exclusive
    · exact ⟨[], by simp [Operator.text]⟩
    · exact ⟨['.'], by simp [Operator.text]⟩
  have hoperator : Lexeme.operator? ('.' :: '.' :: cs) =
      some (.onLine (.op (.range exclusive)) ('.' :: '.' :: cs).length) := by
    rw [← htext]
    cases exclusive <;> decide +kernel
  -- Only a third dot could make the operator longer.
  have hlonger : ∀ row ∈ Lexeme.operatorTable, ∀ d, '.' :: '.' :: cs ++ [d] <+: row.1.toList →
      d = '.' := by
    have hdots : ∀ row ∈ Lexeme.operatorTable, row.1.toList.take 2 = ['.', '.'] →
        (row.1.toList.drop 2).all (· == '.') = true := by
      decide +kernel
    rintro row hrow d ⟨rest, hrest⟩
    have htake : row.1.toList.take 2 = ['.', '.'] := by rw [← hrest]; rfl
    have hmem : d ∈ row.1.toList.drop 2 := by rw [← hrest]; simp
    exact beq_iff_eq.1 (all_eq_true.1 (hdots row hrow htake) d hmem)
  rw [htext]
  refine ⟨'.', '.' :: cs, rfl, fun line => ?_⟩
  rw [nextStep_mark (by decide) (startsLine_of_ne (by decide) (by decide)),
    literalStep_eq_markStep (by decide) (by simp) (by simp)]
  refine markStep_eq rfl ?_
  rw [← cons_append, operator?_append, hoperator]
  intro d hd row hrow hstarts
  rw [hlonger row hrow d hstarts] at hd
  exact hnext hd

end LaneScript
