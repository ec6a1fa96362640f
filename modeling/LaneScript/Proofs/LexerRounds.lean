import LaneScript.Proofs.TextReading

/-!
# The rounds of the reading of a text

A text is read in rounds.  `LexState.Round` is one of them: what the step at the place finds decides
the next state, and the place moves on by exactly the characters that the step is written with.  It
is not clear from this alone that the place moves at all; that it does is `Round.lt`, which rests on
the extents that `scans_nextStep` gives.  So no text has more rounds than characters
(`Rounds.length_le`), and the reading as a whole is a run of rounds up to a state where it halts or
fails (`exists_rounds_scan`).

Every round keeps the invariant `LexState.Reading`.  `codesFit_of_lexFrom` and `isOfText_of_lexFrom`
are what follows for the tokens of a text, and for a text that has none.
-/

namespace LaneScript

open Literal

namespace LexState

/-- One round, from a state and the text that remains to those behind the step. -/
inductive Round : LexState → List Char → LexState → List Char → Prop where
  | skip {s : LexState} {c : Char} {rest : List Char} {extent : Extent}
      (hstep : nextStep s.context s.line c rest = .ok (.skip extent)) :
      Round s (c :: rest) (s.skip (c :: rest) extent) ((c :: rest).drop extent.length)
  | lexeme {s : LexState} {c : Char} {rest : List Char} {lexeme : Lexeme}
      (hstep : nextStep s.context s.line c rest = .ok (.lexeme lexeme)) :
      Round s (c :: rest) (s.take lexeme) ((c :: rest).drop lexeme.extent.length)
  | heredoc {s : LexState} {c : Char} {rest : List Char} {opener : HeredocOpener} {length : Nat}
      (hstep : nextStep s.context s.line c rest = .ok (.heredoc opener length)) :
      Round s (c :: rest) (s.openHeredoc opener) ((c :: rest).drop length)
  | lineEnd {s : LexState} {c : Char} {rest : List Char} {bodies : HeredocBodies}
      (hstep : nextStep s.context s.line c rest = .ok .lineEnd)
      (hbodies : readBodies s.file s.pending (s.line + 1) rest = .ok bodies) :
      Round s (c :: rest) (s.endLine.fill bodies) (rest.drop bodies.extent.length)

/-- So many rounds, one after the other. -/
inductive Rounds : Nat → LexState → List Char → LexState → List Char → Prop where
  | none (s : LexState) (text : List Char) : Rounds 0 s text s text
  | more {n : Nat} {s s' s'' : LexState} {text text' text'' : List Char}
      (hfirst : Round s text s' text') (hothers : Rounds n s' text' s'' text'') :
      Rounds (n + 1) s text s'' text''

/-- There is no further round because the text is over, or the script is. -/
def Halts (s : LexState) : List Char → Prop
  | [] => True
  | c :: rest => nextStep s.context s.line c rest = .ok .stop

/-- There is no further round because the text is at fault here. -/
def Fails (s : LexState) (failure : Failure) : List Char → Prop
  | [] => False
  | c :: rest =>
    nextStep s.context s.line c rest = .error failure.fault ∧ failure.file = s.file ∧
        failure.line = s.line ∨
      nextStep s.context s.line c rest = .ok .lineEnd ∧
        readBodies s.file s.pending (s.line + 1) rest = .error failure

/-- What a step finds is a first part of the text. -/
theorem isReadFrom_of_nextStep {context : Context} {line : Nat} {c : Char} {rest : List Char}
    {step : Step} (h : nextStep context line c rest = .ok step) :
    step.IsReadFrom line (c :: rest) := by
  have hread := scans_nextStep context line c rest
  rw [h] at hread
  exact hread

section Round

variable {n : Nat} {s s' : LexState} {text text' : List Char}

/-- What remains behind a round is a part of the text, up to its end. -/
theorem Round.isSuffix (h : Round s text s' text') : text' <:+ text := by
  cases h with
  | lineEnd hstep hbodies => exact (List.drop_suffix _ _).trans (List.suffix_cons _ _)
  | _ => exact List.drop_suffix _ _

/-- Every round takes at least one character. -/
theorem Round.lt (h : Round s text s' text') : text'.length < text.length := by
  -- an extent of the text is not empty
  have hdrop : ∀ {extent : Extent} {text : List Char}, extent.IsOf text →
      (text.drop extent.length).length < text.length := by
    intro extent text hextent
    have hpos := hextent.length_pos
    have hle := hextent.length_le
    rw [List.length_drop]
    omega
  cases h with
  | skip hstep => exact hdrop (isReadFrom_of_nextStep hstep).1
  | lexeme hstep => exact hdrop (isReadFrom_of_nextStep hstep).extent
  | heredoc hstep => exact hdrop (isReadFrom_of_nextStep hstep).1
  | lineEnd hstep hbodies =>
    rw [List.length_drop, List.length_cons]
    omega

theorem Rounds.isSuffix (h : Rounds n s text s' text') : text' <:+ text := by
  induction h with
  | none s text => exact List.suffix_rfl
  | more hfirst hothers ih => exact ih.trans hfirst.isSuffix

/-- A text has no more rounds than characters. -/
theorem Rounds.length_le (h : Rounds n s text s' text') : n + text'.length ≤ text.length := by
  induction h with
  | none s text => rw [Nat.zero_add]
  | more hfirst hothers ih =>
    have hlt := hfirst.lt
    omega

/-- The reading goes on behind a round. -/
theorem Round.scan_eq (h : Round s text s' text') : scan s text = scan s' text' := by
  cases h with
  | skip hstep =>
    have hread := isReadFrom_of_nextStep hstep
    rw [scan, hstep, ← drop_of_isOf hread.1]
  | lexeme hstep =>
    have hread := isReadFrom_of_nextStep hstep
    rw [scan, hstep, ← drop_of_isOf hread.extent]
  | heredoc hstep =>
    have hread := isReadFrom_of_nextStep hstep
    rw [scan, hstep, ← drop_of_isOf hread.1]
  | lineEnd hstep hbodies =>
    rw [scan, hstep]
    simp only [hbodies]

theorem Rounds.scan_eq (h : Rounds n s text s' text') : scan s text = scan s' text' := by
  induction h with
  | none s text => rfl
  | more hfirst hothers ih => rw [hfirst.scan_eq, ih]

theorem Halts.scan_eq (h : s.Halts text) : scan s text = .ok s := by
  cases text with
  | nil => rw [scan]
  | cons c rest =>
    have hstep : nextStep s.context s.line c rest = .ok .stop := h
    rw [scan, hstep]

theorem Fails.scan_eq {failure : Failure} (h : s.Fails failure text) :
    scan s text = .error failure := by
  cases text with
  | nil => exact h.elim
  | cons c rest =>
    rcases h with ⟨hstep, hfile, hline⟩ | ⟨hstep, hbodies⟩
    · rw [scan, hstep, ← hfile, ← hline]
    · rw [scan, hstep]
      simp only [hbodies]

/-- Every round keeps the invariant of the reading. -/
theorem Round.reading {last : Nat} (h : Round s text s' text') (hs : s.Reading last text) :
    s'.Reading last text' := by
  cases h with
  | skip hstep => exact hs.skip (isReadFrom_of_nextStep hstep).1
  | lexeme hstep => exact hs.take (isReadFrom_of_nextStep hstep)
  | heredoc hstep => exact hs.openHeredoc (isReadFrom_of_nextStep hstep).1
  | lineEnd hstep hbodies =>
    cases Option.some.inj (isReadFrom_of_nextStep hstep)
    exact hs.fill (bodiesRead_of_readBodies hbodies)

theorem Rounds.reading {last : Nat} (h : Rounds n s text s' text') (hs : s.Reading last text) :
    s'.Reading last text' := by
  induction h with
  | none s text => exact hs
  | more hfirst hothers ih => exact ih (hfirst.reading hs)

theorem Fails.isOfText {failure : Failure} (h : s.Fails failure text) :
    failure.fault.isOfText = true := by
  cases text with
  | nil => exact h.elim
  | cons c rest =>
    rcases h with ⟨hstep, -⟩ | ⟨-, hbodies⟩
    · have hread := scans_nextStep s.context s.line c rest
      rw [hstep] at hread
      exact hread
    · exact readBodies_error hbodies

end Round

/-- Where the rounds of a reading lead. -/
def Ends (s : LexState) (text : List Char) : Except Failure LexState → Prop
  | .ok last => s = last ∧ s.Halts text
  | .error failure => s.Fails failure text

/-- The reading of a text is a run of rounds that leads to its outcome. -/
theorem exists_rounds_scan (s : LexState) (text : List Char) :
    ∃ n s' rest, Rounds n s text s' rest ∧ s'.Ends rest (scan s text) := by
  induction hlength : text.length using Nat.strong_induction_on generalizing s text with
  | h length ih =>
    -- one round, and then those of the shorter text
    have hmore : ∀ {s' text'}, Round s text s' text' →
        ∃ n last rest, Rounds n s text last rest ∧ last.Ends rest (scan s text) := by
      intro s' text' hround
      obtain ⟨n, last, rest, hrounds, hends⟩ := ih _ (hlength ▸ hround.lt) s' text' rfl
      exact ⟨n + 1, last, rest, .more hround hrounds, hround.scan_eq ▸ hends⟩
    cases text with
    | nil =>
      rw [scan]
      exact ⟨0, s, [], .none s [], rfl, trivial⟩
    | cons c rest =>
      cases hstep : nextStep s.context s.line c rest with
      | error fault =>
        rw [scan, hstep]
        exact ⟨0, s, c :: rest, .none _ _, .inl ⟨hstep, rfl, rfl⟩⟩
      | ok step =>
        cases step with
        | stop =>
          rw [scan, hstep]
          exact ⟨0, s, c :: rest, .none _ _, rfl, hstep⟩
        | skip extent => exact hmore (.skip hstep)
        | lexeme lexeme => exact hmore (.lexeme hstep)
        | heredoc opener length => exact hmore (.heredoc hstep)
        | lineEnd =>
          cases hbodies : readBodies s.file s.pending (s.line + 1) rest with
          | error failure =>
            rw [scan, hstep]
            simp only [hbodies]
            exact ⟨0, s, c :: rest, .none _ _, .inr ⟨hstep, hbodies⟩⟩
          | ok bodies => exact hmore (.lineEnd hstep hbodies)

/-- A change of states, and of failures with them, that goes along with the reading. -/
structure Follows (f : LexState → LexState) (g : Failure → Failure) : Prop where
  round : ∀ {s s' : LexState} {text text' : List Char},
    Round s text s' text' → Round (f s) text (f s') text'
  halts : ∀ {s : LexState} {text : List Char}, s.Halts text → (f s).Halts text
  fails : ∀ {s : LexState} {failure : Failure} {text : List Char},
    s.Fails failure text → (f s).Fails (g failure) text

theorem Follows.rounds {f : LexState → LexState} {g : Failure → Failure} (h : Follows f g) {n : Nat}
    {s s' : LexState} {text text' : List Char} (hrounds : Rounds n s text s' text') :
    Rounds n (f s) text (f s') text' := by
  induction hrounds with
  | none s text => exact .none _ _
  | more hfirst hothers ih => exact .more (h.round hfirst) ih

/-- From a changed state the reading leads to the changed outcome. -/
theorem Follows.scan_eq {f : LexState → LexState} {g : Failure → Failure} (h : Follows f g)
    (s : LexState) (text : List Char) : scan (f s) text = ((scan s text).mapError g).map f := by
  obtain ⟨n, s', rest, hrounds, hends⟩ := exists_rounds_scan s text
  rw [(h.rounds hrounds).scan_eq]
  -- where the rounds end, the changed state ends them in the same way
  cases hscan : scan s text with
  | ok last =>
    rw [hscan] at hends
    obtain ⟨rfl, hhalts⟩ := hends
    exact (h.halts hhalts).scan_eq
  | error failure =>
    rw [hscan] at hends
    exact (h.fails hends).scan_eq

end LexState

/-! ### The tokens of a text -/

section Text

variable {file source : String} {line : Nat} {tokens : List Located} {failure : Failure}

/-- The rounds in which the tokens of a text are found. -/
theorem exists_rounds_lexFrom (h : lexFrom file line source = .ok tokens) :
    ∃ n s rest, LexState.Rounds n (.start file line) source.toList s rest ∧ s.pending = [] ∧
      tokens = s.tokens.toList ++ [⟨.done, s.line, true⟩] := by
  obtain ⟨s, hscan, hpending, rfl⟩ := lexFrom_eq_ok h
  obtain ⟨n, s', rest, hrounds, hends⟩ :=
    LexState.exists_rounds_scan (.start file line) source.toList
  rw [hscan] at hends
  obtain ⟨rfl, -⟩ := hends
  exact ⟨n, s', rest, hrounds, hpending, Array.toList_push⟩

/-- The code in the strings of a text lies on the lines of the text. -/
theorem codesFit_of_lexFrom (h : lexFrom file line source = .ok tokens) :
    ∀ here ∈ tokens, CodesFit (line + newlinesOf source.toList) here.token.parts := by
  obtain ⟨n, s, rest, hrounds, -, rfl⟩ := exists_rounds_lexFrom h
  have hs := hrounds.reading (.start line source.toList)
  intro here hhere
  rcases List.mem_append.1 hhere with hhere | hhere
  · exact hs.codes here (Array.mem_toList_iff.1 hhere)
  · rw [List.mem_singleton.1 hhere]
    exact codesFit_nil _

/-- A text that cannot be read is at fault itself. -/
theorem isOfText_of_lexFrom (h : lexFrom file line source = .error failure) :
    failure.fault.isOfText = true := by
  obtain ⟨n, s, rest, -, hends⟩ := LexState.exists_rounds_scan (.start file line) source.toList
  unfold lexFrom at h
  cases hscan : scan (.start file line) source.toList with
  | error failure' =>
    rw [hscan] at h hends
    cases h
    exact LexState.Fails.isOfText hends
  | ok s =>
    rw [hscan] at h
    dsimp only [bind, Except.bind] at h
    split at h
    · cases h
      rfl
    · cases h

/-- A fault that is not one of a text is not found in reading one. -/
theorem fault_ne_of_lexFrom {fault : Fault} (h : lexFrom file line source = .error failure)
    (hfault : fault.isOfText = false) : failure.fault ≠ fault := by
  rintro rfl
  rw [isOfText_of_lexFrom h] at hfault
  cases hfault

end Text
end LaneScript
