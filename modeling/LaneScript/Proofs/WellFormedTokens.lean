import LaneScript.Proofs.LineComposition

/-!
# Well-formed sequences of tokens

The tokens of a text are well-formed, each of them and in their order: they end in the end of the
input and have it nowhere else, they do not start with a line end, and no line end follows another
(`wellFormed_of_lexFrom`).

In between this is not so.  A heredoc leaves an empty string in its place until the line is over,
and its body is put there with those of the other heredocs of the line.  The invariant of a round,
`LexState.IsSound`, is therefore of a token that is well-formed or in the place of a heredoc that
waits; the places that bodies go to are the places that wait (`BodiesRead.slots`), and a text whose
heredocs wait at the end is at fault.
-/

namespace LaneScript

open Literal
open List

/-- A line end has a token before it, and that is no line end. -/
def LinesDivided (tokens : Array Located) : Prop :=
  ∀ i here, tokens[i]? = some here → here.token = .newline →
    ∃ j before, i = j + 1 ∧ tokens[j]? = some before ∧ before.token ≠ .newline

theorem LinesDivided.push {tokens : Array Located} (h : LinesDivided tokens) {last : Located}
    (hlast : last.token = .newline → ¬ EndsLine tokens) : LinesDivided (tokens.push last) := by
  intro i here hhere hnewline
  rw [Array.getElem?_push] at hhere
  split at hhere
  next hi =>
    cases hhere
    -- the new token is a line end, so the last one before it is none
    have hends := hlast hnewline
    unfold EndsLine at hends
    cases hbefore : tokens.back? with
    | none => exact absurd (.inl (congrArg _ hbefore)) hends
    | some before =>
      have hne : before.token ≠ .newline := by
        intro hnewline
        rw [hbefore, Option.map_some, hnewline] at hends
        exact hends (.inr rfl)
      rw [Array.back?_eq_getElem?] at hbefore
      have hlt := (Array.getElem?_eq_some_iff.1 hbefore).1
      refine ⟨tokens.size - 1, before, by omega, ?_, hne⟩
      rw [Array.getElem?_push, if_neg (by omega), hbefore]
  next hi =>
    -- what was before a line end is still before it
    obtain ⟨j, before, hj, hbefore, hne⟩ := h i here hhere hnewline
    have hlt := (Array.getElem?_eq_some_iff.1 hbefore).1
    refine ⟨j, before, hj, ?_, hne⟩
    rw [Array.getElem?_push, if_neg (Nat.ne_of_lt hlt), hbefore]

namespace LexState

variable {n : Nat} {s s' : LexState} {text text' : List Char}

/-! ### Bodies in their places -/

/-- What stands in a place behind the bodies: what stood there, or one of the bodies. -/
theorem getElem?_fill {bodies : HeredocBodies} {i : Nat} {here : Located}
    (h : (s.fill bodies).tokens[i]? = some here) :
    ∃ old, s.tokens[i]? = some old ∧ here.line = old.line ∧
      (i ∉ bodies.parts.map (·.1) ∧ here = old ∨
        i ∈ bodies.parts.map (·.1) ∧ ∃ body ∈ bodies.parts, here.token = .str body.2) := by
  unfold fill at h
  dsimp only at h
  generalize s.tokens = tokens at h ⊢
  generalize bodies.parts = found at h ⊢
  -- the bodies that come later decide, and the first one where they have another place
  induction found generalizing tokens with
  | nil => exact ⟨here, h, rfl, .inl ⟨not_mem_nil, rfl⟩⟩
  | cons body others ih =>
    obtain ⟨slot, parts⟩ := body
    obtain ⟨old, hold, hline, hplace⟩ := ih _ h
    rw [Array.getElem?_modify] at hold
    have hothers : i ∈ others.map (·.1) ∧ (∃ body ∈ others, here.token = .str body.2) →
        i ∈ ((slot, parts) :: others).map (·.1) ∧
          ∃ body ∈ (slot, parts) :: others, here.token = .str body.2 := by
      rintro ⟨hi, body, hbody, hhere⟩
      exact ⟨mem_cons_of_mem _ hi, body, mem_cons_of_mem _ hbody, hhere⟩
    split at hold
    next hslot =>
      obtain ⟨first, hfirst, rfl⟩ := Option.map_eq_some_iff.1 hold
      refine ⟨first, hfirst, hline, .inr ?_⟩
      rcases hplace with ⟨-, rfl⟩ | hplace
      · exact ⟨mem_cons.2 (.inl hslot.symm), _, mem_cons_self, rfl⟩
      · exact hothers hplace
    next hslot =>
      refine ⟨old, hold, hline, hplace.imp (fun hplace => ⟨?_, hplace.2⟩) hothers⟩
      rw [map_cons, mem_cons]
      rintro (hi | hi)
      · exact hslot hi.symm
      · exact hplace.1 hi

theorem size_fill (s : LexState) (bodies : HeredocBodies) :
    (s.fill bodies).tokens.size = s.tokens.size := by
  unfold fill
  dsimp only
  generalize s.tokens = tokens
  induction bodies.parts generalizing tokens with
  | nil => rfl
  | cons body others ih => rw [foldl_cons, ih, Array.size_modify]

theorem linesDivided_fill {bodies : HeredocBodies} (h : LinesDivided s.tokens) :
    LinesDivided (s.fill bodies).tokens := by
  intro i here hhere hnewline
  obtain ⟨old, hold, -, hplace⟩ := getElem?_fill hhere
  rcases hplace with ⟨-, rfl⟩ | ⟨-, body, -, hbody⟩
  · obtain ⟨j, before, hj, hbefore, hne⟩ := h i here hold hnewline
    have hlt := (Array.getElem?_eq_some_iff.1 hbefore).1
    rw [← s.size_fill bodies] at hlt
    have hfilled := Array.getElem?_eq_getElem hlt
    refine ⟨j, _, hj, hfilled, ?_⟩
    -- the token before it is the old one or a body, and a body is no line end
    obtain ⟨old, hold, -, ⟨-, heq⟩ | ⟨-, body, -, hbody⟩⟩ := getElem?_fill hfilled
    · rw [hbefore] at hold
      cases hold
      rw [heq]
      exact hne
    · rw [hbody]
      exact Token.noConfusion
  · rw [hbody] at hnewline
    cases hnewline

/-! ### The invariant of a round -/

/-- Each token is well-formed or waits for its body, and the line ends are apart. -/
structure IsSound (s : LexState) : Prop where
  each : ∀ i here, s.tokens[i]? = some here →
    here.token.IsWellFormed ∨ i ∈ s.pending.map (·.slot)
  lines : LinesDivided s.tokens

/-- One more token, in a state whose heredocs are those that wait already and maybe the new one. -/
theorem IsSound.push (h : s.IsSound) {token : Token} (hs : s'.tokens = (s.push token).tokens)
    (hpending : ∀ slot ∈ s.pending.map (·.slot), slot ∈ s'.pending.map (·.slot))
    (htoken : token.IsWellFormed ∨ s.tokens.size ∈ s'.pending.map (·.slot))
    (hlines : token = .newline → ¬ EndsLine s.tokens) : s'.IsSound where
  each i here hhere := by
    rw [hs, LexState.push, Array.getElem?_push] at hhere
    split at hhere
    next hi =>
      cases hhere
      rw [hi]
      exact htoken
    next => exact (h.each i here hhere).imp_right (hpending i)
  lines := by
    rw [hs]
    exact h.lines.push hlines

theorem IsSound.endLine (h : s.IsSound) : s.endLine.IsSound := by
  unfold LexState.endLine
  dsimp only
  split
  · exact ⟨h.each, h.lines⟩
  next hlast =>
    refine h.push rfl (fun _ => id) (.inl trivial) fun _ hends => hlast ?_
    simpa [EndsLine] using hends

theorem pending_endLine (s : LexState) : s.endLine.pending = s.pending := by
  unfold LexState.endLine
  dsimp only
  split
  · rfl
  · rfl

/-- The bodies go to the places that wait, so every token is well-formed behind them. -/
theorem IsSound.fill (h : s.IsSound) {file : String} {line : Nat} {bodies : HeredocBodies}
    (hbodies : readBodies file s.pending line text = .ok bodies) : (s.fill bodies).IsSound where
  each i here hhere := by
    refine .inl ?_
    obtain ⟨old, hold, -, ⟨hi, rfl⟩ | ⟨-, body, hbody, hhere⟩⟩ := getElem?_fill hhere
    · rw [(bodiesRead_of_readBodies hbodies).slots] at hi
      exact (h.each i here hold).resolve_right hi
    · rw [hhere]
      exact (bodiesRead_of_readBodies hbodies).joined body hbody
  lines := linesDivided_fill h.lines

theorem Round.isSound (h : Round s text s' text') (hs : s.IsSound) : s'.IsSound := by
  cases h with
  | skip hstep => exact ⟨hs.each, hs.lines⟩
  | lexeme hstep =>
    have htoken := (isReadFrom_of_nextStep hstep).token
    exact hs.push rfl (fun _ => id) (.inl htoken.wellFormed) fun h => absurd h htoken.ne_newline
  | heredoc hstep =>
    refine hs.push rfl (fun slot hslot => ?_) (.inr ?_) Token.noConfusion
    · rw [openHeredoc, map_append]
      exact mem_append_left _ hslot
    · rw [openHeredoc, map_append]
      exact mem_append_right _ mem_cons_self
  | lineEnd hstep hbodies =>
    rw [← s.pending_endLine] at hbodies
    exact hs.endLine.fill hbodies

theorem Rounds.isSound (h : Rounds n s text s' text') (hs : s.IsSound) : s'.IsSound := by
  induction h with
  | none s text => exact hs
  | more hfirst hothers ih => exact ih (hfirst.isSound hs)

theorem isSound_start (file : String) (line : Nat) : (start file line).IsSound := by
  refine ⟨fun i here h => ?_, fun i here h => ?_⟩ <;> cases h

end LexState

/-! ### The tokens of a text -/

/-- Each token of a text is well-formed: no heredoc waits at its end. -/
theorem isWellFormed_of_lexFrom {file source : String} {line : Nat} {tokens : List Located}
    (h : lexFrom file line source = .ok tokens) : ∀ here ∈ tokens, here.token.IsWellFormed := by
  obtain ⟨n, s, rest, hrounds, hpending, rfl⟩ := exists_rounds_lexFrom h
  have hsound := hrounds.isSound (LexState.isSound_start file line)
  intro here hhere
  rcases mem_append.1 hhere with hhere | hhere
  · obtain ⟨i, hi⟩ := Array.mem_iff_getElem?.1 (Array.mem_toList_iff.1 hhere)
    refine (hsound.each i here hi).resolve_right ?_
    rw [hpending]
    exact not_mem_nil
  · rw [mem_singleton.1 hhere]
    exact trivial

/-- The tokens are as the readers of tokens expect them. -/
structure WellFormedTokens (tokens : List Located) : Prop where
  ends : EndsOnce tokens
  starts : ∀ first ∈ tokens.head?, first.token ≠ .newline
  lines : tokens.IsChain fun here next => ¬ (here.token = .newline ∧ next.token = .newline)
  each : ∀ here ∈ tokens, here.token.IsWellFormed

/-- The tokens of a text are well-formed. -/
theorem wellFormed_of_lexFrom {file : String} {line : Nat} {source : String} {tokens : List Located}
    (h : lexFrom file line source = .ok tokens) : WellFormedTokens tokens := by
  have hends := endsOnce_lexFrom h
  have heach := isWellFormed_of_lexFrom h
  obtain ⟨s, hscan, -, rfl⟩ := lexFrom_eq_ok h
  obtain ⟨n, last, rest, hrounds, hlast⟩ :=
    LexState.exists_rounds_scan (.start file line) source.toList
  rw [hscan] at hlast
  obtain ⟨rfl, -⟩ := hlast
  have hsound := hrounds.isSound (LexState.isSound_start file line)
  -- the end of the input is one more token of this kind
  have hlines : LinesDivided (last.tokens.push ⟨.done, last.line, true⟩) :=
    hsound.lines.push Token.noConfusion
  refine ⟨hends, fun first hfirst hnewline => ?_, ?_, heach⟩
  · rw [head?_eq_getElem?, Array.getElem?_toList] at hfirst
    obtain ⟨j, before, hj, -⟩ := hlines 0 first hfirst hnewline
    cases hj
  · rw [isChain_iff_getElem]
    rintro i hi ⟨hhere, hnext⟩
    have hplace : ∀ k (hk : k < (last.tokens.push ⟨.done, last.line, true⟩).toList.length),
        (last.tokens.push ⟨.done, last.line, true⟩)[k]? =
          some ((last.tokens.push ⟨.done, last.line, true⟩).toList.get ⟨k, hk⟩) := by
      intro k hk
      rw [← Array.getElem?_toList]
      exact getElem?_eq_getElem hk
    obtain ⟨j, before, hj, hbefore, hne⟩ := hlines _ _ (hplace _ hi) hnext
    cases hj
    rw [hplace i (by omega)] at hbefore
    cases hbefore
    exact hne hhere

/-- Empty lines before the first token and behind a heredoc, whose body fills its place. -/
theorem wellFormed_heredoc_line :
    lexFrom "Fastfile" 1 "\n\nputs <<~A, %w[b c]\n  #\x7be\x7df\nA\n\n@g\n" =
        .ok [⟨.word "puts", 3, true⟩, ⟨.str [.code "e" 4, .text "f\n"], 3, true⟩,
          ⟨.comma, 3, false⟩, ⟨.words false ["b", "c"], 3, true⟩, ⟨.newline, 3, false⟩,
          ⟨.var .instanceLevel "g", 7, true⟩, ⟨.newline, 7, false⟩, ⟨.done, 8, true⟩] ∧
      WellFormedTokens [⟨.word "puts", 3, true⟩, ⟨.str [.code "e" 4, .text "f\n"], 3, true⟩,
        ⟨.comma, 3, false⟩, ⟨.words false ["b", "c"], 3, true⟩, ⟨.newline, 3, false⟩,
        ⟨.var .instanceLevel "g", 7, true⟩, ⟨.newline, 7, false⟩, ⟨.done, 8, true⟩] := by
  have htokens : lexFrom "Fastfile" 1 "\n\nputs <<~A, %w[b c]\n  #\x7be\x7df\nA\n\n@g\n" =
      .ok [⟨.word "puts", 3, true⟩, ⟨.str [.code "e" 4, .text "f\n"], 3, true⟩,
        ⟨.comma, 3, false⟩, ⟨.words false ["b", "c"], 3, true⟩, ⟨.newline, 3, false⟩,
        ⟨.var .instanceLevel "g", 7, true⟩, ⟨.newline, 7, false⟩, ⟨.done, 8, true⟩] := by
    decide +kernel
  exact ⟨htokens, wellFormed_of_lexFrom htokens⟩

end LaneScript
