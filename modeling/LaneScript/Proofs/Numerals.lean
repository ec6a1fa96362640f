import LaneScript.Proofs.Lexemes

/-!
# How integers are written

`IsNumeral n text` says that the text is one of the ways to write the natural number `n`: a single
zero, decimal digits that start with another one, or digits behind one of the `radixMarks`.
Underscores may stand behind the first digit or the mark.  What the text denotes is said by
`Denotes`, digit by digit and without the functions that read it.

* `scanNumeral_of_isNumeral` — the whole of such a text is one lexeme, with the number as its value
  or, from `2^63` upward, with its own text as its token.
* `rereads_marked` and `rereads_plain` — whatever text a numeral stands in, a token that keeps its
  text is read from that text again, `Token.Rereads`.
-/

namespace LaneScript

open Literal
open Number (digitValue isDigitOf ofDigits)
open List

variable {c : Char} {radix : Nat} {text : List Char}

/-! ### What a numeral denotes -/

/-- The number that digits denote: a digit of either case counts one, and each digit behind it moves
it up by one place.  Underscores count nothing. -/
inductive Denotes (radix : Nat) : List Char → Nat → Prop
  | nil : Denotes radix [] 0
  | digit {text : List Char} {n d : Nat} {c : Char} (h : Denotes radix text n) (hd : d < radix)
      (hc : c ∈ [Nat.digitChar d, (Nat.digitChar d).toUpper]) :
      Denotes radix (text ++ [c]) (n * radix + d)
  | underscore {text : List Char} {n : Nat} (h : Denotes radix text n) :
      Denotes radix (text ++ ['_']) n

/-- What stands before the digits of an integer, and the radix that it stands for. -/
def radixMarks : List (List Char × Nat) :=
  [(['0', 'x'], 16), (['0', 'X'], 16), (['0', 'b'], 2), (['0', 'B'], 2), (['0', 'o'], 8),
    (['0', 'O'], 8), (['0', 'd'], 10), (['0', 'D'], 10), (['0'], 8)]

/-- The text is a way to write the number. -/
inductive IsNumeral : Nat → List Char → Prop
  | zero : IsNumeral 0 ['0']
  | decimal {n : Nat} {first : Char} {rest : List Char} (hzero : first ≠ '0')
      (hfirst : first ≠ '_') (h : Denotes 10 (first :: rest) n) : IsNumeral n (first :: rest)
  | marked {n radix : Nat} {mark body : List Char} (hmark : (mark, radix) ∈ radixMarks)
      (hdigit : ∃ c ∈ body, c ≠ '_') (h : Denotes radix body n) : IsNumeral n (mark ++ body)

theorem digitChar_spec {d : Nat} (hd : d < 16)
    (hc : c ∈ [Nat.digitChar d, (Nat.digitChar d).toUpper]) :
    isDigitOf 16 c = true ∧ digitValue c = d ∧ c ≠ '_' := by
  have hall : ∀ d < 16, [Nat.digitChar d, (Nat.digitChar d).toUpper].all (fun c =>
      decide (isDigitOf 16 c = true ∧ digitValue c = d ∧ c ≠ '_')) = true := by
    decide
  exact forall_mem_of_all (hall d hd) c hc

theorem isDigitOf_of_lt (hc : isDigitOf 16 c = true) (hvalue : digitValue c < radix) :
    isDigitOf radix c = true := by
  unfold isDigitOf at hc ⊢
  simp only [Bool.and_eq_true, decide_eq_true_eq] at hc ⊢
  exact ⟨hc.1, hvalue⟩

theorem isDigit_of_isDigitOf_ten (h : isDigitOf 10 c = true) : c.isDigit = true := by
  by_contra hdigit
  have hrange : ¬ ('0' ≤ c ∧ c ≤ '9') := by
    simpa [Char.isDigit, Char.le_def] using hdigit
  simp only [isDigitOf, digitValue, if_neg hrange, Bool.and_eq_true, decide_eq_true_eq] at h
  split at h <;> omega

/-- What digits denote is what is made of them. -/
theorem Denotes.spec {radix n : Nat} (h : Denotes radix text n) (hradix : radix ≤ 16) :
    (∀ c ∈ text, isNumeralChar radix c = true) ∧
      ofDigits radix (withoutUnderscores text) = n := by
  induction h with
  | nil => exact ⟨forall_mem_nil _, rfl⟩
  | @digit text n d c h hd hc ih =>
    obtain ⟨hdigit, hvalue, hne⟩ := digitChar_spec (by omega) hc
    have hof : isDigitOf radix c = true := isDigitOf_of_lt hdigit (hvalue ▸ hd)
    refine ⟨forall_mem_append.2 ⟨ih.1, forall_mem_singleton.2 ?_⟩, ?_⟩
    · rw [isNumeralChar, hof, Bool.true_or]
    · have hkept : withoutUnderscores (text ++ [c]) = withoutUnderscores text ++ [c] := by
        simp [withoutUnderscores, hne]
      rw [hkept, ofDigits, foldl_append]
      exact congrArg₂ (· * radix + ·) ih.2 hvalue
  | @underscore text n h ih =>
    refine ⟨forall_mem_append.2 ⟨ih.1, forall_mem_singleton.2 (by simp [isNumeralChar])⟩,
      ?_⟩
    have hkept : withoutUnderscores (text ++ ['_']) = withoutUnderscores text := by
      simp [withoutUnderscores]
    rw [hkept, ih.2]

/-! ### Marks -/

theorem radixMarks_spec : ∀ row ∈ radixMarks, row.2 ≤ 16 ∧ withoutUnderscores row.1 = row.1 ∧
    ∃ more, row.1 = '0' :: more := by
  simp [radixMarks, withoutUnderscores]

theorem radixMark?_append {mark body : List Char} (hmark : (mark, radix) ∈ radixMarks)
    (hbody : ∀ c ∈ body, isNumeralChar radix c = true) (hne : body ≠ []) :
    radixMark? (mark ++ body) = some (radix, mark.length) := by
  cases body with
  | nil => exact absurd rfl hne
  | cons c rest =>
    have hc := hbody c mem_cons_self
    simp only [radixMarks, mem_cons, Prod.mk.injEq, not_mem_nil, or_false] at hmark
    rcases hmark with ⟨rfl, rfl⟩ | ⟨rfl, rfl⟩ | ⟨rfl, rfl⟩ | ⟨rfl, rfl⟩ | ⟨rfl, rfl⟩ | ⟨rfl, rfl⟩ |
      ⟨rfl, rfl⟩ | ⟨rfl, rfl⟩ | ⟨rfl, rfl⟩
    case inr.inr.inr.inr.inr.inr.inr.inr =>
      -- no octal digit is the letter of another mark
      have hletters : ∀ letter ∈ ['x', 'X', 'b', 'B', 'o', 'O', 'd', 'D'],
          isNumeralChar 8 letter = false :=
        forall_mem_of_all (by decide)
      have hletter : c ∉ ['x', 'X', 'b', 'B', 'o', 'O', 'd', 'D'] := by
        intro hmem
        rw [hletters c hmem] at hc
        cases hc
      simp only [mem_cons, not_mem_nil, or_false, not_or] at hletter
      rw [isNumeralChar, Bool.or_eq_true] at hc
      rcases hc with hc | hc <;> simp [radixMark?, hletter, hc]
    all_goals rfl

/-- A marked text starts with one of the marks. -/
theorem exists_mark_of_radixMark? {radix length : Nat}
    (h : radixMark? text = some (radix, length)) :
    ∃ mark rest, (mark, radix) ∈ radixMarks ∧ text = mark ++ rest ∧ length = mark.length := by
  unfold radixMark? at h
  split at h
  next c rest =>
    simp only [Bool.or_eq_true, beq_iff_eq] at h
    repeat' split at h
    all_goals cases h
    -- the four marks with a letter, and the zero alone
    iterate 4
      next hc =>
        rcases hc with rfl | rfl <;> exact ⟨[_, _], rest, by simp [radixMarks], rfl, rfl⟩
    exact ⟨['0'], c :: rest, by simp [radixMarks], rfl, rfl⟩
  · cases h

/-! ### Numerals that are a whole text -/

theorem scanNumeral_marked {mark body : List Char} (hmark : (mark, radix) ∈ radixMarks)
    (hbody : ∀ c ∈ body, isNumeralChar radix c = true) (hdigits : withoutUnderscores body ≠ []) :
    scanNumeral (mark ++ body) = .ok (integerToken radix (withoutUnderscores body)
      (withoutUnderscores (mark ++ body)), (mark ++ body).length) := by
  have hne : body ≠ [] := by
    rintro rfl
    exact hdigits rfl
  have htake : ((mark ++ body).drop mark.length).takeWhile (isNumeralChar radix) = body := by
    rw [drop_left, takeWhile_eq_self_iff.2 hbody]
  unfold scanNumeral
  simp only [radixMark?_append hmark hbody hne, htake, ← length_append, take_length,
    List.isEmpty_iff, if_neg hdigits]

theorem scanNumeral_plain (hmark : radixMark? text = none)
    (htext : ∀ c ∈ text, isNumeralChar 10 c = true) :
    scanNumeral text =
      .ok (integerToken 10 (withoutUnderscores text) (withoutUnderscores text), text.length) := by
  unfold scanNumeral
  simp [hmark, takeWhile_eq_self_iff.2 htext, fraction, exponentPart]

/-- The token of an integer with the given text. -/
def numeralToken (n : Nat) (text : List Char) : Token :=
  if n < Nat.pow 2 63 then .int n else .bigInt (String.ofList (text.filter (· != '_')))

/-- A way to write a number is read as that number. -/
theorem scanNumeral_of_isNumeral {n : Nat} (h : IsNumeral n text) :
    scanNumeral text = .ok (numeralToken n text, text.length) := by
  have htoken : ∀ {radix : Nat} {digits text : List Char}, ofDigits radix digits = n →
      integerToken radix digits (withoutUnderscores text) = numeralToken n text := by
    intro radix digits text hvalue
    have hbound : intBound = Nat.pow 2 63 := rfl
    rw [integerToken, hvalue, hbound]
    rfl
  cases h with
  | zero => rfl
  | @decimal _ first rest hzero hfirst h =>
    obtain ⟨htext, hvalue⟩ := h.spec (by decide)
    rw [scanNumeral_plain (by simp [radixMark?, hzero]) htext, htoken hvalue]
  | @marked _ radix mark body hmark hdigit h =>
    obtain ⟨hbody, hvalue⟩ := h.spec (radixMarks_spec _ hmark).1
    have hdigits : withoutUnderscores body ≠ [] := by
      obtain ⟨c, hc, hne⟩ := hdigit
      exact ne_nil_of_mem (mem_filter.2 ⟨hc, by simpa using hne⟩)
    rw [scanNumeral_marked hmark hbody hdigits, htoken hvalue]

theorem IsNumeral.exists_first {n : Nat} (h : IsNumeral n text) :
    ∃ c rest, text = c :: rest ∧ c.isDigit = true := by
  cases h with
  | zero => exact ⟨'0', [], rfl, rfl⟩
  | @decimal _ first rest hzero hfirst h =>
    have hchar := (h.spec (by decide)).1 first mem_cons_self
    rw [isNumeralChar, Bool.or_eq_true] at hchar
    exact ⟨first, rest, rfl, isDigit_of_isDigitOf_ten (hchar.resolve_right (by simpa using hfirst))⟩
  | @marked _ radix mark body hmark hdigit h =>
    obtain ⟨more, rfl⟩ := (radixMarks_spec _ hmark).2.2
    exact ⟨'0', more ++ body, rfl, rfl⟩

/-! ### Texts that are kept -/

/-- A token that keeps its text is read from that text. -/
def Token.Rereads : Token → Prop
  | .bigInt text => (∃ c rest, text.toList = c :: rest ∧ c.isDigit = true) ∧
    scanNumeral text.toList = .ok (.bigInt text, text.toList.length)
  | _ => True

theorem rereads_integerToken {digits text : List Char}
    (hfirst : ∃ c rest, text = c :: rest ∧ c.isDigit = true)
    (h : scanNumeral text = .ok (integerToken radix digits text, text.length)) :
    (integerToken radix digits text).Rereads := by
  unfold integerToken at h ⊢
  dsimp only at h ⊢
  split
  · trivial
  next hlarge =>
    rw [if_neg hlarge] at h
    rw [Token.Rereads, String.toList_ofList]
    exact ⟨hfirst, h⟩

theorem withoutUnderscores_idem (text : List Char) :
    withoutUnderscores (withoutUnderscores text) = withoutUnderscores text := by
  simp [withoutUnderscores]

theorem rereads_marked {radix length : Nat} (hmark : radixMark? text = some (radix, length))
    {body : List Char} (hbody : (text.drop length).takeWhile (isNumeralChar radix) = body)
    (hdigits : withoutUnderscores body ≠ []) :
    (integerToken radix (withoutUnderscores body)
      (withoutUnderscores (text.take (length + body.length)))).Rereads := by
  obtain ⟨mark, rest, hmem, rfl, rfl⟩ := exists_mark_of_radixMark? hmark
  obtain ⟨-, hplain, more, hzero⟩ := radixMarks_spec _ hmem
  rw [drop_left] at hbody
  -- the mark has no underscores, so the text that is kept is the mark and the digits
  have hkept : ∀ body, withoutUnderscores (mark ++ body) = mark ++ withoutUnderscores body := by
    intro body
    rw [withoutUnderscores, filter_append]
    exact congrArg (· ++ _) hplain
  have hwritten : (mark ++ rest).take (mark.length + body.length) = mark ++ body := by
    rw [take_length_add_append, ← hbody,
      ← prefix_iff_eq_take.1 (List.takeWhile_prefix _)]
  have hchars : ∀ c ∈ withoutUnderscores body, isNumeralChar radix c = true := by
    intro c hc
    rw [← hbody] at hc
    exact mem_takeWhile_imp (mem_filter.1 hc).1
  have hagain := scanNumeral_marked hmem hchars (by rwa [withoutUnderscores_idem])
  rw [hkept, withoutUnderscores_idem] at hagain
  rw [hwritten, hkept]
  exact rereads_integerToken ⟨'0', more ++ withoutUnderscores body, congrArg (· ++ _) hzero, rfl⟩
    hagain

theorem rereads_plain {rest : List Char} (hmark : radixMark? (c :: rest) = none)
    (hc : c.isDigit = true) :
    (integerToken 10 (withoutUnderscores ((c :: rest).takeWhile (isNumeralChar 10)))
      (withoutUnderscores ((c :: rest).takeWhile (isNumeralChar 10)))).Rereads := by
  obtain ⟨hchar, hne, -⟩ := digit_spec hc
  have hdigits : withoutUnderscores ((c :: rest).takeWhile (isNumeralChar 10)) =
      c :: withoutUnderscores (rest.takeWhile (isNumeralChar 10)) := by
    simp [withoutUnderscores, hchar, hne]
  have hchars : ∀ d ∈ withoutUnderscores ((c :: rest).takeWhile (isNumeralChar 10)),
      isNumeralChar 10 d = true :=
    fun d hd => mem_takeWhile_imp (mem_filter.1 hd).1
  -- a mark would be in the first two characters, and no underscore is behind a leading zero
  have hunmarked : radixMark? (c :: withoutUnderscores (rest.takeWhile (isNumeralChar 10))) =
      none := by
    by_cases hzero : c = '0'
    · subst hzero
      cases rest with
      | nil => rfl
      | cons d others =>
        by_cases hd : isNumeralChar 10 d = true
        · have hunderscore : d ≠ '_' := by
            rintro rfl
            cases hmark
          rw [takeWhile_cons_of_pos hd, withoutUnderscores,
            filter_cons_of_pos (by simpa using hunderscore)]
          exact hmark
        · rw [takeWhile_cons_of_neg hd]
          rfl
    · simp [radixMark?, hzero]
  rw [← hdigits] at hunmarked
  have hagain := scanNumeral_plain hunmarked hchars
  rw [withoutUnderscores_idem] at hagain
  exact rereads_integerToken ⟨c, _, hdigits, hc⟩ hagain

end LaneScript
