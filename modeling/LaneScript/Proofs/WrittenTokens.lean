import LaneScript.Proofs.Numerals
import LaneScript.Proofs.StringBodies

/-!
# What a text is read as

A lexeme that is read from a text is a first part of that text, and its last character is no blank.

* Its token is well-formed, `Token.IsWellFormed`: names are not empty, the items of a list of words
  hold no blanks, integers are below the bound from which on they are kept as text, and the parts of
  a string are joined.  It is no line end and not the end of the input.
* It counts the line ends that it passes.  The one exception is a regular expression, where a
  backslash takes the next character with it and a line end is taken so too: these are the hidden
  lines of the token, `Token.hiddenLines`.
* The code in a string lies on the lines that the lexeme passes, and there is no more to read in the
  token than in the lexeme.

`Lexeme.IsReadFrom` is all of this, and each kind of lexeme is looked at once; `scans_nextStep` says
it of whatever a step finds.
-/

namespace LaneScript

open Literal
open Text (isBlank isNameStart isNameChar)
open List

variable {c : Char} {rest : List Char}

/-! ### What is said of a token -/

/-- The token is as the readers of tokens expect it. -/
def Token.IsWellFormed : Token → Prop
  | .word text => text ≠ ""
  | .const name | .label name | .var _ name => name ≠ ""
  | .str parts | .command parts => PartsJoined parts
  | .words _ items => ∀ item ∈ items, item ≠ "" ∧ ∀ c ∈ item.toList, isBlank c = false
  | .int value => 0 ≤ value ∧ value < intBound
  | _ => True

/-- The parts of a string, of which code is read again. -/
def Token.parts : Token → List StringPart
  | .str parts | .command parts => parts
  | _ => []

theorem Token.weight_eq (token : Token) : token.weight = 1 + partsWeight token.parts := by
  cases token <;> rfl

/-- The line ends that the token passes and does not count: those in a regular expression. -/
def Token.hiddenLines : Token → Nat
  | .regex source _ => newlinesOf source.toList
  | _ => 0

/-- The token is well-formed, neither a line end nor the end of the input, and read again from a
text that it keeps. -/
structure Token.IsProper (token : Token) : Prop where
  wellFormed : token.IsWellFormed
  ne_newline : token ≠ .newline
  ne_done : token ≠ .done
  rereads : token.Rereads

/-- A proper token of the parts, or one without parts, that hides no line end. -/
structure Token.IsMadeOf (parts : List StringPart) (token : Token) : Prop
    extends token.IsProper where
  hiddenLines : token.hiddenLines = 0
  parts_eq : token.parts = parts ∨ token.parts = []

theorem isMadeOf_str {parts : List StringPart} (h : PartsJoined parts) :
    (Token.str parts).IsMadeOf parts :=
  ⟨⟨h, Token.noConfusion, Token.noConfusion, trivial⟩, rfl, .inl rfl⟩

theorem isMadeOf_command {parts : List StringPart} (h : PartsJoined parts) :
    (Token.command parts).IsMadeOf parts :=
  ⟨⟨h, Token.noConfusion, Token.noConfusion, trivial⟩, rfl, .inl rfl⟩

theorem isMadeOf_symbol (parts : List StringPart) (name : String) :
    (Token.symbol name).IsMadeOf parts :=
  ⟨⟨trivial, Token.noConfusion, Token.noConfusion, trivial⟩, rfl, .inr rfl⟩

theorem isMadeOf_var (sigil : Sigil) {name : List Char} (h : ¬ name.isEmpty = true) :
    (Token.var sigil (String.ofList name)).IsMadeOf [] := by
  refine ⟨⟨?_, Token.noConfusion, Token.noConfusion, trivial⟩, rfl, .inl rfl⟩
  change String.ofList name ≠ ""
  rw [Ne, String.ofList_eq_empty_iff]
  exact mt List.isEmpty_iff.2 h

/-! ### Lexemes -/

/-- The lexeme is a first part of the text, which starts on the given line. -/
structure Lexeme.IsReadFrom (line : Nat) (text : List Char) (lexeme : Lexeme) : Prop where
  token : lexeme.token.IsProper
  extent : lexeme.extent.IsOf text
  gap : Gap.behind (text.take lexeme.extent.length) = .none
  newlines : lexeme.extent.newlines + lexeme.token.hiddenLines =
    newlinesOf (text.take lexeme.extent.length)
  codes : CodesFit (line + lexeme.extent.newlines) lexeme.token.parts
  weight_le : lexeme.token.weight ≤ lexeme.extent.length

/-- The lexeme, if there is one, is a first part of the text. -/
def Lexeme.IsReadFrom? (line : Nat) (text : List Char) (lexeme : Option Lexeme) : Prop :=
  ∀ found ∈ lexeme, found.IsReadFrom line text

section Lexemes

variable {line n : Nat} {text : List Char} {token : Token}

/-- A part without blanks is on one line. -/
theorem isOf_run {read : List Char} (h : read <+: text) (hlength : n = read.length)
    (hne : read ≠ []) (hblank : ∀ c ∈ read, isBlank c = false) :
    Extent.IsOf ⟨n, 0⟩ text ∧ Gap.behind (text.take n) = .none ∧
      newlinesOf (text.take n) = 0 := by
  subst hlength
  rw [take_length_of_isPrefix h]
  exact ⟨Extent.isOf_of_prefix hne h, Gap.behind_of_not_isBlank hne hblank,
    newlinesOf_of_not_isBlank hblank⟩

/-- A token of characters that are no blanks has no line end in it. -/
theorem isReadFrom_onLine {read : List Char} (h : read <+: text) (hlength : n = read.length)
    (hne : read ≠ []) (hblank : ∀ c ∈ read, isBlank c = false) (htoken : token.IsMadeOf []) :
    (Lexeme.onLine token n).IsReadFrom line text := by
  obtain ⟨hextent, hgap, hlines⟩ := isOf_run h hlength hne hblank
  have hparts : token.parts = [] := htoken.parts_eq.elim id id
  refine ⟨htoken.toIsProper, hextent, hgap, ?_, ?_, ?_⟩
  · exact (Nat.zero_add _).trans (htoken.hiddenLines.trans hlines.symm)
  · change CodesFit _ token.parts
    rw [hparts]
    exact codesFit_nil _
  · change token.weight ≤ n
    rw [token.weight_eq, hparts]
    exact hextent.length_pos

/-- A lexeme with marks before it and a character behind it that closes it. -/
theorem isReadFrom_closed {opening newlines : Nat} {close : Char} {parts : List StringPart}
    (hopening : 0 < opening) (hmarks : newlinesOf (text.take opening) = 0)
    (hlast : (text.drop opening)[n]? = some close) (hclose : isBlank close = false)
    (hlines : CountsLines (text.drop opening) ⟨n + 1, newlines⟩)
    (htoken : token.IsMadeOf parts) (hcodes : CodesFit (line + newlines) parts)
    (hweight : partsWeight parts ≤ n + 1) :
    Lexeme.IsReadFrom line text ⟨token, ⟨opening + (n + 1), newlines⟩⟩ := by
  have hlt : n < (text.drop opening).length := (List.getElem?_eq_some_iff.1 hlast).1
  have hextent : Extent.IsOf ⟨n + 1, newlines⟩ (text.drop opening) :=
    ⟨Nat.succ_pos n, hlt, hlines.newlines_le⟩
  -- the gap behind it, its lines, the lines of its code, and its weight
  refine ⟨htoken.toIsProper, hextent.shift, ?_, ?_, ?_, ?_⟩
  · change Gap.behind (text.take (opening + (n + 1))) = .none
    rw [Gap.behind_take_add (Nat.succ_pos n) hlt, Gap.behind_take_add_one hlast]
    exact Gap.ofChar_of_not_isBlank hclose
  · change newlines + token.hiddenLines = newlinesOf (text.take (opening + (n + 1)))
    rw [htoken.hiddenLines, newlinesOf_take_add, hmarks, Nat.zero_add]
    exact hlines
  · rcases htoken.parts_eq with hparts | hparts
    · exact fun source codeLine hcode => hcodes source codeLine (hparts ▸ hcode)
    · exact fun source codeLine hcode => absurd (hparts ▸ hcode) not_mem_nil
  · change token.weight ≤ opening + (n + 1)
    rw [token.weight_eq]
    rcases htoken.parts_eq with hparts | hparts
    · rw [hparts]
      omega
    · rw [hparts]
      exact Nat.le_add_right_of_le hopening

/-- A literal up to its closing character, with the parts of its body. -/
theorem scans_closedBy {close : Char} (interpolated : Bool) {token : List StringPart → Token}
    (line opening : Nat) (text : List Char) (hopening : 0 < opening)
    (hmarks : newlinesOf (text.take opening) = 0) (hclose : isBlank close = false)
    (htoken : ∀ parts, PartsJoined parts → (token parts).IsMadeOf parts) :
    Scans (Lexeme.IsReadFrom line text)
      (Lexeme.closedBy close interpolated token line opening (text.drop opening)) := by
  refine (scans_scanBody _ _ _ _).bind fun body hbody => ?_
  obtain ⟨n, hn, hlast⟩ := hbody.closed close rfl
  have hlines := hbody.counts
  have hweight := hbody.weight_le
  change Lexeme.IsReadFrom line text ⟨token body.1, ⟨opening + body.2.length, body.2.newlines⟩⟩
  rw [show newlinesOf (some close).toList = 0 from newlinesOf_singleton hclose] at hlines
  -- the body ends with the closing character
  rw [hn] at hlines hweight ⊢
  exact isReadFrom_closed hopening hmarks hlast hclose hlines (htoken _ hbody.joined) hbody.codes
    hweight

/-- The words are divided by blanks, and none is empty. -/
theorem scans_wordList {close : Char} (symbols : Bool) {opening : Nat} (hopening : 0 < opening)
    (hmarks : newlinesOf (text.take opening) = 0) (hclose : isBlank close = false) :
    Scans (Lexeme.IsReadFrom line text)
      (Lexeme.wordList symbols close opening (text.drop opening)) := by
  unfold Lexeme.wordList
  refine .ite (fun _ => rfl) fun hlength => ?_
  obtain ⟨c, hlast, hc⟩ := getElem?_length_takeWhile (Nat.lt_of_not_le hlength)
  obtain rfl := bne_eq_false_iff_eq.1 hc
  have hbody := take_length_of_isPrefix (List.takeWhile_prefix (· != c) (l := text.drop opening))
  dsimp only
  rw [Nat.add_assoc]
  refine isReadFrom_closed hopening hmarks hlast hclose ?_
    ⟨⟨?_, Token.noConfusion, Token.noConfusion, trivial⟩, rfl, .inl rfl⟩ (codesFit_nil _)
    (Nat.zero_le _)
  -- the lines of the literal are those before the closing character
  · unfold CountsLines
    rw [take_add_one, hbody, hlast, newlinesOf_append]
    exact congrArg (newlinesOf _ + ·) (newlinesOf_singleton hclose).symm
  · intro item hitem
    obtain ⟨word, hword, rfl⟩ := mem_map.1 hitem
    obtain ⟨hne, hblank⟩ := Text.words_spec hword
    rw [Ne, String.ofList_eq_empty_iff, String.toList_ofList]
    exact ⟨hne, hblank⟩

/-! ### Names and numbers -/

theorem scans_atVariable (line : Nat) (rest : List Char) :
    Scans (Lexeme.IsReadFrom line ('@' :: rest)) (Lexeme.atVariable rest) := by
  -- with one mark or two, the name is the run behind them
  have hmark : ∀ (mark : List Char) (sigil : Sigil), mark <+: rest →
      (∀ c ∈ mark, isBlank c = false) → Scans (Lexeme.IsReadFrom line ('@' :: rest))
        (if ((rest.drop mark.length).takeWhile isNameChar).isEmpty then .error (.missingName '@')
        else .ok (.onLine
          (.var sigil (String.ofList ((rest.drop mark.length).takeWhile isNameChar)))
          (1 + mark.length + ((rest.drop mark.length).takeWhile isNameChar).length))) := by
    intro mark sigil hpart hblank
    refine .ite (fun _ => rfl) fun hname => ?_
    refine isReadFrom_onLine (cons_prefix_cons.2
      ⟨rfl, prefix_append hpart (List.takeWhile_prefix isNameChar)⟩) ?_ (cons_ne_nil _ _) ?_
      (isMadeOf_var sigil hname)
    · rw [length_cons, length_append]
      omega
    · refine forall_mem_cons.2 ⟨by decide, forall_mem_append.2 ⟨hblank, ?_⟩⟩
      exact fun c hc => isBlank_of_isNameChar (mem_takeWhile_imp hc)
  unfold Lexeme.atVariable
  cases hat : rest.head? == some '@' with
  | true =>
    obtain ⟨tail, rfl⟩ := head?_eq_some_iff.1 (eq_of_beq hat)
    exact hmark ['@'] .classLevel (List.prefix_append ['@'] tail)
      (forall_mem_singleton.2 (by decide))
  | false => exact hmark [] .instanceLevel nil_prefix (by simp)

theorem prefix_filter (p : Char → Bool) (text : List Char) : (text.take 1).filter p <+: text := by
  cases text with
  | nil => exact nil_prefix
  | cons c rest =>
    cases hc : p c with
    | true => simp [hc]
    | false => simp [hc]

theorem scans_globalVariable (line : Nat) (rest : List Char) :
    Scans (Lexeme.IsReadFrom line ('$' :: rest)) (Lexeme.globalVariable rest) := by
  -- the name is a run of characters of names or one other character
  have hname : ∀ name : List Char, name <+: rest → (∀ c ∈ name, isBlank c = false) →
      Scans (Lexeme.IsReadFrom line ('$' :: rest))
        (if name.isEmpty then .error (.missingName '$')
        else .ok (.onLine (.var .global (String.ofList name)) (1 + name.length))) := by
    intro name hpart hblank
    refine .ite (fun _ => rfl) fun hname => ?_
    exact isReadFrom_onLine (cons_prefix_cons.2 ⟨rfl, hpart⟩) (Nat.add_comm 1 _)
      (cons_ne_nil _ _) (forall_mem_cons.2 ⟨by decide, hblank⟩)
      (isMadeOf_var .global hname)
  unfold Lexeme.globalVariable
  dsimp only
  cases (rest.takeWhile isNameChar).isEmpty with
  | true =>
    refine hname _ (prefix_filter _ rest) fun c hc => ?_
    simpa using (mem_filter.1 hc).2
  | false =>
    exact hname _ (List.takeWhile_prefix _)
      fun c hc => isBlank_of_isNameChar (mem_takeWhile_imp hc)

theorem isBlank_of_mem_nameMark (h : c ∈ Lexeme.nameMark text) : isBlank c = false := by
  unfold Lexeme.nameMark at h
  split at h
  · split at h
    next hmark =>
      cases mem_singleton.1 h
      simp only [Bool.and_eq_true, Bool.or_eq_true, beq_iff_eq] at hmark
      rcases hmark.1 with rfl | rfl <;> decide
    · cases h
  · cases h

theorem isBlank_of_mem_symbolMark (h : c ∈ Lexeme.symbolMark text) : isBlank c = false := by
  unfold Lexeme.symbolMark at h
  split at h
  · split at h
    next hmark =>
      cases mem_singleton.1 h
      simp only [Bool.and_eq_true, Bool.or_eq_true, beq_iff_eq] at hmark
      rcases hmark.1.1 with (rfl | rfl) | rfl <;> decide
    · cases h
  · cases h

/-- A run of characters of names and a mark behind it. -/
theorem isBlank_of_mem_stem_mark {mark : List Char} (hmark : ∀ c ∈ mark, isBlank c = false)
    (h : c ∈ text.takeWhile isNameChar ++ mark) : isBlank c = false := by
  rcases mem_append.1 h with h | h
  · exact isBlank_of_isNameChar (mem_takeWhile_imp h)
  · exact hmark c h

/-- A name has at least the character that it starts with. -/
theorem isReadFrom_name (context : Context) (line : Nat) (hc : isNameStart c = true) :
    (Lexeme.name context (c :: rest)).IsReadFrom line (c :: rest) := by
  have hstem : (c :: rest).takeWhile isNameChar ≠ [] := by
    rw [takeWhile_cons_of_pos (Text.isNameChar_of_isNameStart hc)]
    exact cons_ne_nil _ _
  -- the stem and its mark are the word, which is not empty
  unfold Lexeme.name
  dsimp only
  have hpart := prefix_append (List.takeWhile_prefix isNameChar (l := c :: rest))
    (prefix_nameMark _)
  have hblank : ∀ d ∈ (c :: rest).takeWhile isNameChar ++
      Lexeme.nameMark ((c :: rest).drop ((c :: rest).takeWhile isNameChar).length),
      isBlank d = false :=
    fun d hd => isBlank_of_mem_stem_mark (fun _ => isBlank_of_mem_nameMark) hd
  have hne := append_ne_nil_of_left_ne_nil hstem
    (Lexeme.nameMark ((c :: rest).drop ((c :: rest).takeWhile isNameChar).length))
  generalize (c :: rest).takeWhile isNameChar ++
    Lexeme.nameMark ((c :: rest).drop ((c :: rest).takeWhile isNameChar).length) = word at *
  have hword : String.ofList word ≠ "" := by
    rw [Ne, String.ofList_eq_empty_iff]
    exact hne
  split
  -- a label takes its colon with it
  next hlabel =>
    simp only [Bool.and_eq_true] at hlabel
    have hcolon : [':'] <+: (c :: rest).drop word.length := by
      have hcolon := hlabel.1.2
      unfold Lexeme.startsWithColon at hcolon
      split at hcolon
      next hdrop =>
        rw [hdrop]
        exact List.prefix_append [':'] _
      · cases hcolon
    refine isReadFrom_onLine (prefix_append hpart hcolon) ?_
      (append_ne_nil_of_left_ne_nil hne _) ?_
      ⟨⟨hword, Token.noConfusion, Token.noConfusion, trivial⟩, rfl, .inl rfl⟩
    · rw [length_append, length_singleton]
    · exact forall_mem_append.2 ⟨hblank, forall_mem_singleton.2 (by decide)⟩
  · split
    · exact isReadFrom_onLine hpart rfl hne hblank
        ⟨⟨hword, Token.noConfusion, Token.noConfusion, trivial⟩, rfl, .inl rfl⟩
    · exact isReadFrom_onLine hpart rfl hne hblank
        ⟨⟨hword, Token.noConfusion, Token.noConfusion, trivial⟩, rfl, .inl rfl⟩

/-- The mark of a radix, and what it is made of. -/
theorem radixMark?_eq_some {radix mark : Nat} (h : radixMark? text = some (radix, mark)) :
    0 < mark ∧ mark ≤ text.length ∧ ∀ c ∈ text.take mark, isBlank c = false := by
  obtain ⟨letters, rest, hletters, rfl, rfl⟩ := exists_mark_of_radixMark? h
  have hall : (radixMarks.all fun row => row.1.all fun c => isBlank c = false) = true := by
    decide
  have hblank := forall_mem_of_all (all_eq_true.1 hall _ hletters)
  obtain ⟨-, -, more, hzero⟩ := radixMarks_spec _ hletters
  rw [take_left, length_append]
  exact ⟨length_pos_of_ne_nil (hzero.trans_ne (cons_ne_nil _ _)),
    Nat.le_add_right _ _, hblank⟩

theorem isMadeOf_integerToken {radix : Nat} {digits text : List Char}
    (h : (integerToken radix digits text).Rereads) :
    (integerToken radix digits text).IsMadeOf [] := by
  unfold integerToken at h ⊢
  dsimp only at h ⊢
  split
  next hbound =>
    exact ⟨⟨⟨Int.natCast_nonneg _, Int.ofNat_lt.2 hbound⟩, Token.noConfusion, Token.noConfusion,
      trivial⟩, rfl, .inl rfl⟩
  next hbound =>
    rw [if_neg hbound] at h
    exact ⟨⟨trivial, Token.noConfusion, Token.noConfusion, h⟩, rfl, .inl rfl⟩

theorem isBlank_of_mem_fraction (h : c ∈ fraction text) : isBlank c = false := by
  unfold fraction at h
  split at h
  · split at h
    · rcases mem_cons.1 h with rfl | h
      · decide
      · exact isBlank_of_isNumeralChar (mem_takeWhile_imp h)
    · cases h
  · cases h

/-- An exponent is written in letters, signs and digits. -/
theorem isBlank_of_mem_exponentPart (h : c ∈ exponentPart text) : isBlank c = false := by
  have hsign : ∀ rest : List Char, ∀ d ∈ exponentSign rest, isBlank d = false := by
    intro rest d hd
    unfold exponentSign at hd
    split at hd
    · rw [mem_singleton.1 hd]
      decide
    · rw [mem_singleton.1 hd]
      decide
    · cases hd
  unfold exponentPart at h
  split at h
  · split at h
    next hmark =>
      dsimp only at h
      split at h
      · cases h
      -- the letter, the sign, then digits
      · rcases mem_cons.1 h with rfl | h
        · simp only [Bool.or_eq_true, beq_iff_eq] at hmark
          rcases hmark with rfl | rfl <;> decide
        · rcases mem_append.1 h with h | h
          · exact hsign _ c h
          · exact isBlank_of_isDigit (mem_takeWhile_imp h)
    · cases h
  · cases h

/-- A numeral has at least the digit that it starts with. -/
theorem scans_scanNumeral (line : Nat) (hc : c.isDigit = true) :
    Scans (fun found => (Lexeme.onLine found.1 found.2).IsReadFrom line (c :: rest))
      (scanNumeral (c :: rest)) := by
  unfold scanNumeral
  split
  next radix mark hmark =>
    -- digits behind the mark of a radix
    obtain ⟨hpos, hle, hblank⟩ := radixMark?_eq_some hmark
    have hlength : ((c :: rest).take mark).length = mark := by
      rw [length_take]
      exact Nat.min_eq_left hle
    have hpart := prefix_append (List.take_prefix mark (c :: rest))
      (List.takeWhile_prefix (isNumeralChar radix))
    rw [hlength] at hpart
    refine .ite (fun _ => rfl) fun hdigits => ?_
    have hrereads := rereads_marked hmark rfl (mt List.isEmpty_iff.2 hdigits)
    refine isReadFrom_onLine hpart ?_ ?_ ?_ (isMadeOf_integerToken hrereads)
    · rw [length_append, hlength]
    · refine append_ne_nil_of_left_ne_nil (ne_nil_of_length_pos ?_) _
      rwa [hlength]
    · refine forall_mem_append.2 ⟨hblank, fun d hd => ?_⟩
      exact isBlank_of_isNumeralChar (mem_takeWhile_imp hd)
  next hmark =>
    have hrereads := rereads_plain hmark hc
    have hwhole : (c :: rest).takeWhile (isNumeralChar 10) ≠ [] := by
      have hdigit : ∀ d ∈ digitChars, isNumeralChar 10 d = true :=
        forall_mem_of_all (by decide)
      rw [takeWhile_cons_of_pos (hdigit c (mem_digitChars hc))]
      exact cons_ne_nil _ _
    have hpart := prefix_append (prefix_append
      (List.takeWhile_prefix (isNumeralChar 10) (l := c :: rest)) (prefix_fraction _))
      (prefix_exponentPart _)
    rw [length_append] at hpart
    have hblank : ∀ d ∈ (c :: rest).takeWhile (isNumeralChar 10), isBlank d = false :=
      fun d hd => isBlank_of_isNumeralChar (mem_takeWhile_imp hd)
    dsimp only
    generalize (c :: rest).takeWhile (isNumeralChar 10) = whole at *
    have hfraction : ∀ d ∈ fraction ((c :: rest).drop whole.length), isBlank d = false :=
      fun d => isBlank_of_mem_fraction
    generalize fraction ((c :: rest).drop whole.length) = frac at *
    have hexponent : ∀ d ∈ exponentPart ((c :: rest).drop (whole.length + frac.length)),
        isBlank d = false := fun d => isBlank_of_mem_exponentPart
    generalize exponentPart ((c :: rest).drop (whole.length + frac.length)) = exponent at *
    -- an integer and a float are the same run of characters
    have hread : ∀ token : Token, token.IsMadeOf [] →
        (Lexeme.onLine token (whole.length + frac.length + exponent.length)).IsReadFrom line
          (c :: rest) := by
      intro token htoken
      refine isReadFrom_onLine hpart ?_ ?_ ?_ htoken
      · rw [length_append, length_append]
      · exact append_ne_nil_of_left_ne_nil (append_ne_nil_of_left_ne_nil hwhole _) _
      · exact forall_mem_append.2 ⟨forall_mem_append.2 ⟨hblank, hfraction⟩, hexponent⟩
    exact .ite (fun _ => hread _ (isMadeOf_integerToken hrereads)) fun _ =>
      hread _ ⟨⟨trivial, Token.noConfusion, Token.noConfusion, trivial⟩, rfl, .inl rfl⟩

/-! ### Symbols, lists of words and regular expressions -/

/-- A lexeme that has to be there, as one that may be there. -/
theorem Scans.map_some {result : Except Fault Lexeme}
    (h : Scans (Lexeme.IsReadFrom line text) result) :
    Scans (Lexeme.IsReadFrom? line text) (result.map some) := by
  refine h.map fun lexeme hlexeme => ?_
  rintro found ⟨⟩
  exact hlexeme

theorem scans_none : Scans (Lexeme.IsReadFrom? line text) (.ok none) := by
  rintro found ⟨⟩

/-- A symbol is a quoted string, a name or a pair of brackets. -/
theorem scans_symbol? (context : Context) (line : Nat) (rest : List Char) :
    Scans (Lexeme.IsReadFrom? line (':' :: rest))
      (Lexeme.symbol? context line rest) := by
  unfold Lexeme.symbol?
  refine .ite (fun _ => scans_none) fun _ => ?_
  split
  · exact scans_none
  next c hc =>
    obtain ⟨tail, rfl⟩ := head?_eq_some_iff.1 hc
    refine .ite (fun hquote => ?_) fun _ => ?_
    · cases eq_of_beq hquote
      exact .map_some (scans_closedBy true line 2 (':' :: '"' :: tail) Nat.two_pos rfl (by decide)
        fun parts _ => isMadeOf_symbol parts _)
    refine .ite (fun hstart => ?_) fun _ => ?_
    · rintro found ⟨⟩
      -- a name with its mark, all on one line
      have hpart := prefix_append (List.takeWhile_prefix isNameChar (l := c :: tail))
        (prefix_symbolMark _)
      refine isReadFrom_onLine (cons_prefix_cons.2 ⟨rfl, hpart⟩) (Nat.add_comm 1 _)
        (cons_ne_nil _ _) ?_ (isMadeOf_symbol _ _)
      refine forall_mem_cons.2 ⟨by decide, fun d hd => ?_⟩
      exact isBlank_of_mem_stem_mark (fun _ => isBlank_of_mem_symbolMark) hd
    refine .ite (fun hbrackets => ?_) fun _ => scans_none
    rintro found ⟨⟩
    have hpart : ['[', ']'] <+: c :: tail := by
      rw [← eq_of_beq hbrackets]
      exact take_prefix _ _
    exact isReadFrom_onLine (cons_prefix_cons.2 ⟨rfl, hpart⟩) rfl (cons_ne_nil _ _)
      (forall_mem_of_all (by decide)) (isMadeOf_symbol _ _)

/-- The letter and the mark that open a literal are on the line of its `%`, and so is the mark that
closes it no blank. -/
theorem percentHead?_eq_some {kind opener : Char} {head : Nat}
    (h : Lexeme.percentHead? text = some (kind, opener, head)) :
    isBlank (Lexeme.closerOf opener) = false ∧ newlinesOf (text.take head) = 0 := by
  have hletters : ∀ d ∈ "wWiIqQ".toList, isBlank d = false := forall_mem_of_all (by decide)
  have hmarks : ∀ d ∈ "([\x7b<|!/".toList,
      isBlank (Lexeme.closerOf d) = false ∧ isBlank d = false := forall_mem_of_all (by decide)
  unfold Lexeme.percentHead? at h
  split at h
  -- with a letter the mark is the second character, else the first
  · split at h
    next hkind =>
      split at h
      next mark hmark =>
        split at h
        next hopener =>
          cases h
          obtain ⟨tail, rfl⟩ := head?_eq_some_iff.1 hmark
          obtain ⟨hcloser, hopener⟩ := hmarks _ (contains_iff_mem.1 hopener)
          refine ⟨hcloser, newlinesOf_of_not_isBlank (forall_mem_cons.2 ⟨?_, ?_⟩)⟩
          · exact hletters _ (contains_iff_mem.1 hkind)
          · exact forall_mem_singleton.2 hopener
        · cases h
      · cases h
    · split at h
      next hopener =>
        cases h
        have hall : ∀ d ∈ "([\x7b<|!".toList, d ∈ "([\x7b<|!/".toList :=
          forall_mem_of_all (by decide)
        obtain ⟨hcloser, hopener⟩ := hmarks _ (hall _ (contains_iff_mem.1 hopener))
        exact ⟨hcloser, newlinesOf_singleton hopener⟩
      · cases h
  · cases h

theorem scans_percent? (line : Nat) (rest : List Char) :
    Scans (Lexeme.IsReadFrom? line ('%' :: rest))
      (Lexeme.percent? line rest) := by
  unfold Lexeme.percent?
  split
  · exact scans_none
  next kind opener head hhead =>
    obtain ⟨hclose, hhead⟩ := percentHead?_eq_some hhead
    have hopening : 0 < 1 + head := Nat.add_pos_left Nat.one_pos _
    -- the literal is opened on the line of the `%`
    have hmarks : newlinesOf (('%' :: rest).take (1 + head)) = 0 := by
      rw [newlinesOf_take_add]
      exact (Nat.zero_add _).trans hhead
    have hdrop : rest.drop head = ('%' :: rest).drop (1 + head) := by
      rw [Nat.add_comm, drop_succ_cons]
    dsimp only
    rw [hdrop]
    refine .ite (fun _ => .map_some (scans_wordList false hopening hmarks hclose)) fun _ => ?_
    refine .ite (fun _ => .map_some (scans_wordList true hopening hmarks hclose)) fun _ => ?_
    exact .map_some (scans_closedBy _ line _ _ hopening hmarks hclose fun _ => isMadeOf_str)

theorem regexLength?_cons (c : Char) (rest : List Char) :
    Lexeme.regexLength? (c :: rest) =
      if c == '\\' then (Lexeme.regexLength? (rest.drop 1)).map (· + 2)
      else if c == '/' then some 0
      else if c == '\n' then none
      else (Lexeme.regexLength? rest).map (· + 1) := by
  -- the definition takes an escaped character and its backslash at once
  by_cases hescape : c = '\\'
  · subst hescape
    cases rest with
    | nil => rfl
    | cons d rest => rfl
  · rw [if_neg (by simpa using hescape), Lexeme.regexLength?.eq_def]
    split
    next heq => cases heq
    next heq => exact absurd (List.cons.inj heq).1 hescape
    next heq => exact absurd (List.cons.inj heq).1 hescape
    next heq =>
      cases heq
      rfl

/-- A regular expression ends at a slash. -/
theorem getElem?_regexLength? {length : Nat} (h : Lexeme.regexLength? text = some length) :
    text[length]? = some '/' := by
  -- on the length, since a backslash takes the next character along
  induction hsize : text.length using Nat.strong_induction_on generalizing text length with
  | h size ih =>
    cases text with
    | nil => cases h
    | cons c rest =>
      rw [length_cons] at hsize
      rw [regexLength?_cons] at h
      split at h
      · obtain ⟨n, hn, rfl⟩ := Option.map_eq_some_iff.1 h
        have hlength : (rest.drop 1).length < size := by
          rw [length_drop]
          omega
        have hslash := ih _ hlength hn rfl
        rwa [getElem?_drop, Nat.add_comm] at hslash
      · split at h
        next hslash =>
          cases h
          rw [eq_of_beq hslash]
          rfl
        · split at h
          · cases h
          · obtain ⟨n, hn, rfl⟩ := Option.map_eq_some_iff.1 h
            have hslash := ih rest.length (by omega) hn rfl
            exact hslash

/-- The line ends of a regular expression are in its source, and not counted. -/
theorem scans_regex (line : Nat) (rest : List Char) :
    Scans (Lexeme.IsReadFrom line ('/' :: rest)) (Lexeme.regex rest) := by
  unfold Lexeme.regex
  split
  · rfl
  next length hlength =>
    obtain ⟨hlt, hslash⟩ := List.getElem?_eq_some_iff.1 (getElem?_regexLength? hlength)
    have htake : (rest.take length).length = length := by
      rw [length_take]
      exact Nat.min_eq_left (Nat.le_of_lt hlt)
    have hflags := takeWhile_prefix (fun c => "imxo".toList.contains c)
      (l := rest.drop (length + 1))
    have hblank : ∀ c ∈ (rest.drop (length + 1)).takeWhile (fun c => "imxo".toList.contains c),
        isBlank c = false := by
      have hall : ∀ c ∈ "imxo".toList, isBlank c = false := forall_mem_of_all (by decide)
      exact fun c hc => hall c (contains_iff_mem.1 (mem_takeWhile_imp hc))
    dsimp only
    generalize (rest.drop (length + 1)).takeWhile (fun c => "imxo".toList.contains c) = flags at *
    -- the slash behind the source and the flags behind it are no blanks
    have hclosing : ∀ c ∈ '/' :: flags, isBlank c = false :=
      forall_mem_cons.2 ⟨by decide, hblank⟩
    have hpart : ('/' :: rest.take length) ++ ('/' :: flags) <+: '/' :: rest := by
      refine cons_prefix_cons.2 ⟨rfl, prefix_append (List.take_prefix _ _) ?_⟩
      rw [htake, drop_eq_getElem_cons hlt, hslash]
      exact cons_prefix_cons.2 ⟨rfl, hflags⟩
    have hread := take_length_of_isPrefix hpart
    have hsize : (('/' :: rest.take length) ++ ('/' :: flags)).length =
        length + 2 + flags.length := by
      rw [length_append, length_cons, length_cons, htake]
      omega
    rw [hsize] at hread
    refine ⟨⟨trivial, Token.noConfusion, Token.noConfusion, trivial⟩, ?_, ?_, ?_,
      codesFit_nil _, ?_⟩
    · exact hsize ▸ Extent.isOf_of_prefix (cons_ne_nil _ _) hpart
    · change Gap.behind (('/' :: rest).take (length + 2 + flags.length)) = .none
      rw [hread, Gap.behind_append _ (cons_ne_nil _ _)]
      exact Gap.behind_of_not_isBlank (cons_ne_nil _ _) hclosing
    · change 0 + newlinesOf (String.ofList (rest.take length)).toList =
        newlinesOf (('/' :: rest).take (length + 2 + flags.length))
      rw [hread, newlinesOf_append, newlinesOf_of_not_isBlank hclosing, newlinesOf_cons,
        String.toList_ofList]
      rfl
    · exact Nat.le_add_right_of_le (Nat.succ_pos _)

/-! ### Steps -/

/-- What a step finds is a first part of the text, which starts on the given line. -/
def Step.IsReadFrom (line : Nat) (text : List Char) : Step → Prop
  | .skip extent => extent.IsOf text ∧ CountsLines text extent
  | .lineEnd => text.head? = some '\n'
  | .lexeme found => found.IsReadFrom line text
  | .heredoc _ length => Extent.IsOf ⟨length, 0⟩ text ∧ Gap.behind (text.take length) = .none ∧
    newlinesOf (text.take length) = 0
  | .stop => atEndMarker text = true

theorem Scans.lexeme {result : Except Fault Lexeme}
    (h : Scans (Lexeme.IsReadFrom line text) result) :
    Scans (Step.IsReadFrom line text) (result.map .lexeme) :=
  h.map fun _ hlexeme => hlexeme

/-- What either attempt finds is read from the text. -/
theorem Scans.orElse {attempt : Except Fault (Option Lexeme)} {other : Unit → Except Fault Step}
    (h : Scans (Lexeme.IsReadFrom? line text) attempt)
    (hother : Scans (Step.IsReadFrom line text) (other ())) :
    Scans (Step.IsReadFrom line text) (Step.orElse attempt other) := by
  unfold Step.orElse
  split
  · exact h
  · exact h _ rfl
  · exact hother

/-- The operators are made of marks. -/
theorem operatorTable_spec : ∀ row ∈ Lexeme.operatorTable, row.1.toList ≠ [] ∧
    row.1.toList.any isBlank = false := by
  decide +kernel

/-- No operator has parts. -/
theorem isMadeOf_operatorTable : ∀ row ∈ Lexeme.operatorTable, row.2.IsMadeOf [] := by
  have hrows : ∀ row ∈ Lexeme.operatorTable, (row.2.IsWellFormed ∧ row.2 ≠ .newline ∧
      row.2 ≠ .done ∧ row.2.Rereads) ∧ row.2.hiddenLines = 0 ∧ row.2.parts = [] := by
    simp [Lexeme.operatorTable, Token.IsWellFormed, Token.Rereads, Token.hiddenLines, Token.parts]
  intro row hrow
  obtain ⟨⟨htoken, hnewline, hdone, hrereads⟩, hhidden, hparts⟩ := hrows row hrow
  exact ⟨⟨htoken, hnewline, hdone, hrereads⟩, hhidden, .inl hparts⟩

theorem isMadeOf_punctuation? (h : Lexeme.punctuation? c rest = some token) :
    token.IsMadeOf [] := by
  unfold Lexeme.punctuation? at h
  split at h
  case h_9 =>
    split at h
    · cases h
    · cases h
      exact ⟨⟨trivial, Token.noConfusion, Token.noConfusion, trivial⟩, rfl, .inl rfl⟩
  case h_10 => cases h
  all_goals
    cases h
    exact ⟨⟨trivial, Token.noConfusion, Token.noConfusion, trivial⟩, rfl, .inl rfl⟩

theorem scans_markStep (line : Nat) (rest : List Char) (hc : isBlank c = false) :
    Scans (Step.IsReadFrom line (c :: rest)) (markStep c rest) := by
  unfold markStep
  split
  next token hmark =>
    exact isReadFrom_onLine (List.prefix_append [c] rest) rfl (cons_ne_nil _ _)
      (forall_mem_singleton.2 hc) (isMadeOf_punctuation? hmark)
  · split
    next lexeme hoperator =>
      obtain ⟨row, hrow, rfl⟩ := Option.map_eq_some_iff.1 hoperator
      have hmem := mem_of_find?_eq_some hrow
      have hfound := find?_some hrow
      -- what holds of every operator was looked up in the table
      obtain ⟨hne, hblank⟩ := operatorTable_spec row hmem
      exact isReadFrom_onLine (List.isPrefixOf_iff_prefix.1 hfound) String.length_toList.symm hne
        (fun c hc => Bool.eq_false_iff.2 (any_eq_false.1 hblank c hc))
        (isMadeOf_operatorTable row hmem)
    · rfl

/-- The opener of a heredoc is a first part of the text, without blanks. -/
theorem heredocOpener?_eq_some {opener : HeredocOpener} {length : Nat}
    (h : heredocOpener? text = some (opener, length)) :
    ∃ read, read <+: text ∧ read ≠ [] ∧ length = read.length ∧ ∀ c ∈ read, isBlank c = false := by
  unfold heredocOpener? at h
  dsimp only at h
  -- the mark, the quote and the name stand one behind the other; each is given a name before the
  -- next is looked at
  have hmark := prefix_filter (fun c => c == '~' || c == '-') text
  have hmarkBlank : ∀ c ∈ (text.take 1).filter (fun c => c == '~' || c == '-'),
      isBlank c = false := by
    intro c hc
    have hkind := (mem_filter.1 hc).2
    simp only [Bool.or_eq_true, beq_iff_eq] at hkind
    rcases hkind with rfl | rfl <;> decide
  generalize (text.take 1).filter (fun c => c == '~' || c == '-') = mark at *
  generalize hbehind : text.drop mark.length = behind at *
  have hquote := prefix_filter (fun c => c == '\'' || c == '"' || c == '\x60') behind
  have hquoteBlank : ∀ c ∈ (behind.take 1).filter
      (fun c => c == '\'' || c == '"' || c == '\x60'), isBlank c = false := by
    intro c hc
    have hkind := (mem_filter.1 hc).2
    simp only [Bool.or_eq_true, beq_iff_eq] at hkind
    rcases hkind with (rfl | rfl) | rfl <;> decide
  generalize (behind.take 1).filter (fun c => c == '\'' || c == '"' || c == '\x60') = quote at *
  have hid := takeWhile_prefix isNameChar (l := behind.drop quote.length)
  have hidBlank : ∀ c ∈ (behind.drop quote.length).takeWhile isNameChar, isBlank c = false :=
    fun c hc => isBlank_of_isNameChar (mem_takeWhile_imp hc)
  generalize (behind.drop quote.length).takeWhile isNameChar = id at *
  split at h
  · cases h
  next hopen =>
    cases h
    simp only [Bool.or_eq_true, not_or, Bool.not_eq_true, Bool.not_eq_false', beq_iff_eq] at hopen
    obtain ⟨⟨hne, hclosed⟩, -⟩ := hopen
    refine ⟨mark ++ (quote ++ (id ++ quote)), ?_, ?_, ?_, ?_⟩
    · refine prefix_append hmark ?_
      rw [hbehind]
      refine prefix_append hquote (prefix_append hid ?_)
      have hend := take_prefix quote.length (behind.drop (quote.length + id.length))
      rw [hclosed] at hend
      rwa [drop_drop]
    · have hid : id ≠ [] := mt List.isEmpty_iff.2 (Bool.eq_false_iff.1 hne)
      simp [hid]
    · simp only [length_append]
      omega
    · simp only [mem_append]
      rintro c (hc | hc | hc | hc)
      · exact hmarkBlank c hc
      · exact hquoteBlank c hc
      · exact hidBlank c hc
      · exact hquoteBlank c hc

theorem scans_literalStep (context : Context) (line : Nat) (rest : List Char)
    (hc : isBlank c = false) :
    Scans (Step.IsReadFrom line (c :: rest)) (literalStep context line c rest) := by
  have hmark := scans_markStep line rest hc
  unfold literalStep
  refine .ite (fun hcolon => ?_) fun _ => ?_
  · cases eq_of_beq hcolon
    exact (scans_symbol? context line rest).orElse hmark
  refine .ite (fun hpercent => ?_) fun _ => ?_
  · cases eq_of_beq (Bool.and_eq_true_iff.1 hpercent).1
    exact (scans_percent? line rest).orElse hmark
  refine .ite (fun hslash => ?_) fun _ => ?_
  · cases eq_of_beq (Bool.and_eq_true_iff.1 hslash).1
    exact (scans_regex line rest).lexeme
  refine .ite (fun hangles => ?_) fun _ => hmark
  -- two angles open a heredoc only before its name
  split
  next opener length hopener =>
    obtain ⟨read, hpart, hne, rfl, hblank⟩ := heredocOpener?_eq_some hopener
    have hopen : c :: '<' :: read <+: c :: rest := by
      simp only [Bool.and_eq_true, beq_iff_eq] at hangles
      obtain ⟨tail, rfl⟩ := head?_eq_some_iff.1 hangles.1.2
      exact cons_prefix_cons.2 ⟨rfl, cons_prefix_cons.2 ⟨rfl, hpart⟩⟩
    exact isOf_run hopen (Nat.add_comm 2 _) (cons_ne_nil _ _)
      (forall_mem_cons.2 ⟨hc, forall_mem_cons.2 ⟨by decide, hblank⟩⟩)
  · exact hmark

theorem blockComment?_of_last_line (h : text.drop (text.takeWhile (· != '\n')).length = []) :
    blockComment? text = none := by
  rw [blockComment?]
  split
  · rfl
  next hrest =>
    rw [h] at hrest
    cases hrest

/-- A line is the last one of its comment if `=end` is on the next. -/
theorem blockComment?_of_line (h : text.drop (text.takeWhile (· != '\n')).length = c :: rest) :
    blockComment? text =
      if "=end".toList.isPrefixOf rest then
        some ⟨(text.takeWhile (· != '\n')).length + 1 + (rest.takeWhile (· != '\n')).length, 1⟩
      else (blockComment? rest).map fun extent =>
        ⟨(text.takeWhile (· != '\n')).length + 1 + extent.length, extent.newlines + 1⟩ := by
  rw [blockComment?]
  split
  next hrest =>
    rw [h] at hrest
    cases hrest
  next hrest =>
    rw [h] at hrest
    cases hrest
    rfl

/-- A block comment counts the line ends that it passes. -/
theorem isOf_blockComment? {extent : Extent} (h : blockComment? text = some extent) :
    extent.IsOf text ∧ CountsLines text extent := by
  suffices hread : (0 < extent.length ∧ extent.length ≤ text.length) ∧ CountsLines text extent from
    ⟨⟨hread.1.1, hread.1.2, hread.2.newlines_le⟩, hread.2⟩
  -- the line ends of the first line and of what comes behind it
  have hlines : ∀ (extent : Extent) {text rest : List Char} {c : Char},
      text.drop (text.takeWhile (· != '\n')).length = c :: rest →
      extent.length ≤ rest.length → CountsLines rest extent →
      (text.takeWhile (· != '\n')).length + 1 + extent.length ≤ text.length ∧
        CountsLines text ⟨(text.takeWhile (· != '\n')).length + 1 + extent.length,
          extent.newlines + 1⟩ := by
    intro extent text rest c hrest hle hcount
    have hc : (c != '\n') = false := head_of_drop_takeWhile (p := (· != '\n')) hrest
    have hlength := congrArg List.length hrest
    rw [length_drop, length_cons] at hlength
    refine ⟨by omega, ?_⟩
    unfold CountsLines at hcount ⊢
    dsimp only
    rw [Nat.add_assoc, newlinesOf_take_run (p := (· != '\n')) rfl, hrest, Nat.add_comm 1,
      take_succ_cons, bne_eq_false_iff_eq.1 hc, newlinesOf_lineEnd, hcount]
  induction text using blockComment?.induct generalizing extent with
  | case1 text line =>
    rename_i hend
    rw [blockComment?_of_last_line hend] at h
    cases h
  | case2 text line c rest =>
    rename_i hrest hclosed
    rw [blockComment?_of_line hrest, if_pos hclosed] at h
    cases h
    have hlast := newlinesOf_take_run (p := (· != '\n')) rfl 0 rest
    obtain ⟨hle, hcount⟩ := hlines ⟨(rest.takeWhile (· != '\n')).length, 0⟩ hrest
      (List.takeWhile_prefix _).length_le hlast.symm
    exact ⟨⟨Nat.add_pos_left (Nat.succ_pos _) _, hle⟩, hcount⟩
  | case3 text line c rest =>
    rename_i hrest hopen ih
    rw [blockComment?_of_line hrest, if_neg hopen] at h
    obtain ⟨inner, hinner, rfl⟩ := Option.map_eq_some_iff.1 h
    obtain ⟨⟨-, hle⟩, hcount⟩ := ih hinner
    obtain ⟨hle, hcount⟩ := hlines inner hrest hle hcount
    exact ⟨⟨Nat.add_pos_left (Nat.succ_pos _) _, hle⟩, hcount⟩

/-- A step finds what can be read from a text, or a fault of the text. -/
theorem scans_nextStep (context : Context) (line : Nat) (c : Char) (rest : List Char) :
    Scans (Step.IsReadFrom line (c :: rest)) (nextStep context line c rest) := by
  -- a literal between quotes
  have hquoted : ∀ {close : Char} (interpolated : Bool) {token : List StringPart → Token},
      isBlank c = false → isBlank close = false →
      (∀ parts, PartsJoined parts → (token parts).IsMadeOf parts) →
      Scans (Step.IsReadFrom line (c :: rest))
        ((Lexeme.closedBy close interpolated token line 1 rest).map .lexeme) :=
    fun interpolated _ hc hclose htoken => .lexeme (scans_closedBy interpolated line 1 (c :: rest)
      Nat.one_pos (newlinesOf_singleton hc) hclose htoken)
  unfold nextStep
  -- comments, the end of the script, line ends and blanks are no lexemes
  refine .ite (fun _ => ?_) fun _ => ?_
  · cases hcomment : blockComment? (c :: rest) with
    | none => rfl
    | some extent => exact isOf_blockComment? hcomment
  refine .ite (fun hstop => (Bool.and_eq_true_iff.1 hstop).2) fun _ => ?_
  refine .ite (fun hhash => ?_) fun _ => ?_
  · refine ⟨Extent.isOf_of_prefix ?_ (List.takeWhile_prefix _),
      (newlinesOf_take_run (p := (· != '\n')) rfl 0 (c :: rest)).symm⟩
    cases eq_of_beq hhash
    exact cons_ne_nil _ _
  refine .ite (fun hjoin => ?_) fun _ => ?_
  · simp only [Bool.and_eq_true, beq_iff_eq] at hjoin
    obtain ⟨rfl, hnext⟩ := hjoin
    obtain ⟨tail, rfl⟩ := head?_eq_some_iff.1 hnext
    have hcount : CountsLines ('\\' :: '\n' :: tail) ⟨2, 1⟩ := rfl
    exact ⟨⟨Nat.two_pos, by simp, hcount.newlines_le⟩, hcount⟩
  refine .ite (fun hend => congrArg some (eq_of_beq hend)) fun hnewline => ?_
  refine .ite (fun _ => ?_) fun hblank => ?_
  · exact ⟨Extent.isOf_of_prefix (cons_ne_nil c []) (List.prefix_append [c] rest),
      (newlinesOf_of_beq_lineEnd hnewline).symm⟩
  have hc := Bool.eq_false_iff.2 hblank
  refine .ite (fun _ => hquoted true hc (by decide) fun _ => isMadeOf_str) fun _ => ?_
  refine .ite (fun _ => hquoted false hc (by decide) fun _ => isMadeOf_str) fun _ => ?_
  refine .ite (fun _ => hquoted true hc (by decide) fun _ => isMadeOf_command) fun _ => ?_
  -- numbers and names
  refine .ite (fun hdigit => (scans_scanNumeral line hdigit).map fun _ hfound => hfound) fun _ => ?_
  refine .ite (fun hat => ?_) fun _ => ?_
  · cases eq_of_beq hat
    exact (scans_atVariable line rest).lexeme
  refine .ite (fun hdollar => ?_) fun _ => ?_
  · cases eq_of_beq hdollar
    exact (scans_globalVariable line rest).lexeme
  refine .ite (fun hname => isReadFrom_name context line hname) fun _ => ?_
  exact scans_literalStep context line rest hc

end Lexemes

end LaneScript
