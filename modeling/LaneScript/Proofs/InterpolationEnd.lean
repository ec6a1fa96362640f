import LaneScript.Proofs.WrittenStrings

/-!
# Where interpolated code ends

The walk over the code of an interpolation counts the braces that are open, and leaves out those
between quotes.  `IsBalanced` says without a count what such code is.  The two agree: the walk ends
at a brace exactly if the code before it is balanced, `closingBrace_iff`, and there is no other such
brace.

That balanced code is walked over is known from `closingBraceFrom_balanced`.  For the way back the
count has to be taken apart.  A walk that ends with `depth` braces open at first has gone over the
ends of so many pairs, `ClosesBraces depth`, and a walk that starts between quotes has come out of
them before, `CodePlace.Leaves`.
-/

namespace LaneScript

open Literal

/-- The code closes so many braces that are open before it, and is balanced between them. -/
inductive ClosesBraces : Nat → List Char → Prop where
  | balanced {code : List Char} (h : IsBalanced code) : ClosesBraces 0 code
  | brace {depth : Nat} {inner code : List Char} (hinner : IsBalanced inner)
      (h : ClosesBraces depth code) : ClosesBraces (depth + 1) (inner ++ '}' :: code)

/-- What can stand before balanced code can stand before code that closes braces. -/
theorem ClosesBraces.append (first : List Char)
    (hfirst : ∀ code, IsBalanced code → IsBalanced (first ++ code)) {depth : Nat}
    {code : List Char} (h : ClosesBraces depth code) : ClosesBraces depth (first ++ code) := by
  cases h with
  | balanced h => exact .balanced (hfirst code h)
  | brace hinner h =>
    rw [← List.append_assoc]
    exact .brace (hfirst _ hinner) h

/-- The code leaves a section between quotes and then closes so many braces. -/
def ClosesBehind (quote : Char) (depth : Nat) (code : List Char) : Prop :=
  ∃ quotedEnd rest, code = quotedEnd ++ rest ∧ IsQuotedEnd quote quotedEnd ∧ ClosesBraces depth rest

/-- What can stand before the end of the section can stand before code that leaves it. -/
theorem ClosesBehind.append {quote : Char} (first : List Char)
    (hfirst : ∀ quotedEnd, IsQuotedEnd quote quotedEnd → IsQuotedEnd quote (first ++ quotedEnd))
    {depth : Nat} {code : List Char} (h : ClosesBehind quote depth code) :
    ClosesBehind quote depth (first ++ code) := by
  obtain ⟨quotedEnd, rest, rfl, hend, hrest⟩ := h
  exact ⟨first ++ quotedEnd, rest, (List.append_assoc _ _ _).symm, hfirst _ hend, hrest⟩

/-- The code leaves the quotes and closes the braces that are open at the place. -/
def Literal.CodePlace.Leaves : CodePlace → List Char → Prop
  | .plain depth, code => ClosesBraces depth code
  | .inQuotes quote depth, code => ClosesBehind quote depth code
  | .escaped quote depth, code => ∃ c rest, code = c :: rest ∧ ClosesBehind quote depth rest

/-- What the walk has gone over leaves the quotes and the braces in which it started. -/
theorem leaves_of_closingBraceFrom {place : CodePlace} {text : List Char} {length : Nat}
    (h : closingBraceFrom place text = some length) : place.Leaves (text.take length) := by
  -- one character at a time, as the walk goes; the place says what is behind the character
  induction text generalizing place length with
  | nil =>
    rw [closingBraceFrom] at h
    cases h
  | cons c rest ih =>
    have hstep : ∀ next, (closingBraceFrom next rest).map (· + 1) = some length →
        ∃ n, (c :: rest).take length = c :: rest.take n ∧ next.Leaves (rest.take n) := by
      intro next hnext
      obtain ⟨n, hn, rfl⟩ := Option.map_eq_some_iff.1 hnext
      exact ⟨n, List.take_succ_cons, ih hn⟩
    cases place with
    | escaped quote depth =>
      obtain ⟨n, htake, hleaves⟩ := hstep _ h
      exact ⟨c, rest.take n, htake, hleaves⟩
    | inQuotes quote depth =>
      obtain ⟨n, htake, hleaves⟩ := hstep _ h
      rw [htake]
      split at hleaves
      next hback =>
        obtain ⟨d, code, hcode, hleaves⟩ := hleaves
        rw [hcode, eq_of_beq hback]
        exact hleaves.append ['\\', d] fun _ => .escaped d
      next hback =>
        split at hleaves
        next hquote => exact ⟨[quote], rest.take n, by rw [eq_of_beq hquote]; rfl, .close, hleaves⟩
        next hquote =>
          have hne : c ≠ '\\' ∧ c ≠ quote := by simpa using And.intro hback hquote
          exact ClosesBehind.append [c] (fun _ => .plain hne.1 hne.2) hleaves
    | plain depth =>
      rw [closingBraceFrom_plain] at h
      split at h
      next hopen =>
        obtain ⟨n, htake, hleaves⟩ := hstep _ h
        rw [htake, eq_of_beq hopen]
        -- the brace is closed by the first one that the rest closes
        generalize rest.take n = behind at hleaves ⊢
        cases hleaves with
        | @brace _ inner code hinner hcloses =>
          have hpair := hcloses.append ('{' :: inner ++ ['}']) fun code hcode => by
            simpa using IsBalanced.braces hinner hcode
          simpa [CodePlace.Leaves] using hpair
      next hopen =>
        split at h
        next hclose =>
          cases depth with
          | zero =>
            cases h
            exact .balanced .nil
          | succ depth =>
            obtain ⟨n, htake, hleaves⟩ := hstep _ h
            rw [htake, eq_of_beq hclose]
            exact .brace .nil hleaves
        next hclose =>
          split at h
          next hquote =>
            obtain ⟨n, htake, quotedEnd, code, hcode, hend, hcloses⟩ := hstep _ h
            rw [htake, hcode, ← List.cons_append]
            exact hcloses.append (c :: quotedEnd) fun _ => .quoted (by simpa using hquote) hend
          next hquote =>
            obtain ⟨n, htake, hleaves⟩ := hstep _ h
            rw [htake]
            have hplain : c ∉ ['{', '}', '"', '\''] := by
              simpa [not_or] using And.intro hopen (And.intro hclose hquote)
            exact ClosesBraces.append [c] (fun _ => .plain hplain) hleaves

/-- The walk ends at a brace exactly if the code before it is balanced. -/
theorem closingBrace_eq_some_iff {text : List Char} {length : Nat} :
    closingBrace text = some length ↔ text[length]? = some '}' ∧ IsBalanced (text.take length) := by
  constructor
  · intro h
    have hcloses : ClosesBraces 0 (text.take length) := leaves_of_closingBraceFrom h
    cases hcloses with
    | balanced hcode => exact ⟨getElem?_closingBraceFrom h, hcode⟩
  · rintro ⟨hbrace, hcode⟩
    obtain ⟨hlt, hbrace⟩ := List.getElem?_eq_some_iff.1 hbrace
    have htext : text = text.take length ++ '}' :: text.drop (length + 1) := by
      rw [← hbrace, List.getElem_cons_drop, List.take_append_drop]
    have hfound := closingBrace_balanced hcode (text.drop (length + 1))
    rwa [← htext, List.length_take, Nat.min_eq_left (Nat.le_of_lt hlt)] at hfound

/-- Code that starts at the first position ends at the last one: a brace is there, and what is
between the two is balanced. -/
def CodeEndsAt (text : List Char) (start last : Nat) : Prop :=
  start ≤ last ∧ text[last]? = some '}' ∧ IsBalanced ((text.drop start).take (last - start))

/-- **The end of code is found exactly.**  From any position of a text the walk ends at the brace
that balanced code leads to, and only at such a brace; there is at most one of them. -/
theorem closingBrace_iff (text : List Char) (start : Nat) :
    (∀ last, (closingBrace (text.drop start)).map (start + ·) = some last ↔
      CodeEndsAt text start last) ∧
    ∀ last last', CodeEndsAt text start last → CodeEndsAt text start last' → last = last' := by
  have hiff : ∀ last, (closingBrace (text.drop start)).map (start + ·) = some last ↔
      CodeEndsAt text start last := by
    intro last
    rw [Option.map_eq_some_iff]
    constructor
    · rintro ⟨length, hlength, rfl⟩
      rw [closingBrace_eq_some_iff, List.getElem?_drop] at hlength
      refine ⟨Nat.le_add_right _ _, hlength.1, ?_⟩
      rw [Nat.add_sub_cancel_left]
      exact hlength.2
    · rintro ⟨hle, hbrace, hcode⟩
      refine ⟨last - start, ?_, Nat.add_sub_cancel' hle⟩
      rw [closingBrace_eq_some_iff, List.getElem?_drop, Nat.add_sub_cancel' hle]
      exact ⟨hbrace, hcode⟩
  refine ⟨hiff, fun last last' h h' => ?_⟩
  have heq := ((hiff last).2 h).symm.trans ((hiff last').2 h')
  exact Option.some.inj heq

/-- A string with code: a pair of braces, and in quotes a brace and both quotes. -/
def codeWithQuotes : List Char := "#\x7bf \x7b\x7d, \"\\\"'\x7d\"\x7d\x7d".toList

/-- The code ends neither at the brace of the pair nor at the one in the quotes. -/
theorem closingBrace_iff_quotes :
    CodeEndsAt codeWithQuotes 2 14 ∧
      ∀ last, CodeEndsAt codeWithQuotes 2 last → last = 14 := by
  have hfound : CodeEndsAt codeWithQuotes 2 14 :=
    ((closingBrace_iff codeWithQuotes 2).1 14).1 (by decide +kernel)
  exact ⟨hfound, fun last hlast => (closingBrace_iff codeWithQuotes 2).2 last 14 hlast hfound⟩

end LaneScript
