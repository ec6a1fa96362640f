import LaneScript.Proofs.WellFormedTokens

/-!
# The lines of tokens

A token carries the line on which it starts: the line of the text and the line ends before it.  The
reading counts them wherever a token, a comment or the body of a heredoc goes over a line end, with
one exception.  In a regular expression a backslash takes the character behind it along, and a line
end so taken is not counted; from there on all lines are too low.

So the rule is that of `line_of_tokenStarts`: the line of a token and the lines hidden before it are
the line of the text and the line ends before it.  Where no regular expression before a token goes
over a line end, its line is exact; `line_behind_regex` is a text where it is not.

Where a token starts is said by the rounds of the reading, `TokenStarts`.  What one round adds is
`Round.adds`; the last line of a heredoc that the text ends with is counted although it has no end,
but nothing comes behind it.
-/

namespace LaneScript

open Literal
open List

/-- The line of a token and the line ends that it hides. -/
def Located.place (here : Located) : Nat × Nat := (here.line, here.token.hiddenLines)

/-- The line ends that tokens in these places hide. -/
def hiddenIn (places : List (Nat × Nat)) : Nat := places.foldr (fun place n => place.2 + n) 0

/-- The line ends that some tokens hide. -/
def hiddenLines (tokens : List Located) : Nat := hiddenIn (tokens.map Located.place)

theorem hiddenIn_append (places others : List (Nat × Nat)) :
    hiddenIn (places ++ others) = hiddenIn places + hiddenIn others := by
  induction places with
  | nil => exact (Nat.zero_add _).symm
  | cons place places ih =>
    change place.2 + hiddenIn (places ++ others) = place.2 + hiddenIn places + hiddenIn others
    rw [ih, Nat.add_assoc]

theorem hiddenLines_eq_zero (tokens : List Located) :
    hiddenLines tokens = 0 ↔ ∀ here ∈ tokens, here.token.hiddenLines = 0 := by
  induction tokens with
  | nil => simp [hiddenLines, hiddenIn]
  | cons here tokens ih =>
    rw [forall_mem_cons, ← ih]
    exact Nat.add_eq_zero_iff

namespace LexState

variable {n : Nat} {s s' : LexState} {text text' : List Char}

/-- The places of the tokens that are found. -/
def places (s : LexState) : List (Nat × Nat) := s.tokens.toList.map Located.place

theorem length_places (s : LexState) : s.places.length = s.tokens.size := by
  rw [places, length_map, Array.length_toList]

theorem places_push (s : LexState) (token : Token) :
    (s.push token).places = s.places ++ [(s.line, token.hiddenLines)] := by
  rw [places, push, Array.toList_push, map_append]
  rfl

/-- In the places of the heredocs that wait there are strings. -/
def WaitsAtStrings (s : LexState) : Prop :=
  ∀ slot ∈ s.pending.map (·.slot), ∃ here, s.tokens[slot]? = some here ∧ here.token = .str []

theorem WaitsAtStrings.push (h : s.WaitsAtStrings) (token : Token) :
    (s.push token).WaitsAtStrings := by
  intro slot hslot
  obtain ⟨here, hhere, htoken⟩ := h slot hslot
  have hlt := (Array.getElem?_eq_some_iff.1 hhere).1
  refine ⟨here, ?_, htoken⟩
  rw [LexState.push, Array.getElem?_push, if_neg (Nat.ne_of_lt hlt), hhere]

theorem WaitsAtStrings.openHeredoc (h : s.WaitsAtStrings) (opener : HeredocOpener) :
    (s.openHeredoc opener).WaitsAtStrings := by
  intro slot hslot
  rw [LexState.openHeredoc, map_append, mem_append] at hslot
  rcases hslot with hslot | hslot
  · exact h.push _ slot hslot
  · rw [mem_singleton.1 hslot]
    exact ⟨_, Array.getElem?_push_size, rfl⟩

/-- Bodies change no place: a string hides no line end, and neither did the string before it. -/
theorem places_fill (h : s.WaitsAtStrings) {file : String} {line : Nat} {bodies : HeredocBodies}
    (hbodies : readBodies file s.pending line text = .ok bodies) :
    (s.fill bodies).places = s.places := by
  refine ext_getElem? fun i => ?_
  unfold places
  rw [getElem?_map, getElem?_map, Array.getElem?_toList, Array.getElem?_toList]
  cases hhere : (s.fill bodies).tokens[i]? with
  | none =>
    have hsize := Array.getElem?_eq_none_iff.1 hhere
    rw [size_fill] at hsize
    rw [Array.getElem?_eq_none hsize]
  | some here =>
    -- a body comes where the empty string of its opener was
    obtain ⟨old, hold, hline, ⟨-, rfl⟩ | ⟨hi, body, -, hbody⟩⟩ := getElem?_fill hhere
    · rw [hold]
    · rw [(bodiesRead_of_readBodies hbodies).slots] at hi
      obtain ⟨waiting, hwaiting, htoken⟩ := h i hi
      rw [hold] at hwaiting ⊢
      cases hwaiting
      rw [Option.map_some, Option.map_some, Located.place, Located.place, hline, hbody, htoken]
      rfl

/-- The state at the end of a line is the one before it, one line lower, with at most a line end
more. -/
theorem places_endLine (s : LexState) :
    s.endLine.line = s.line + 1 ∧
      (s.endLine.places = s.places ∨ s.endLine.places = s.places ++ [(s.line, 0)]) := by
  refine ⟨rfl, ?_⟩
  unfold endLine
  dsimp only
  split
  · exact .inl rfl
  · exact .inr (s.places_push .newline)

theorem WaitsAtStrings.endLine (h : s.WaitsAtStrings) : s.endLine.WaitsAtStrings := by
  unfold LexState.endLine
  dsimp only
  split
  · exact h
  · exact h.push _

/-- What a round adds: at most one token, on the line where the round starts, and a text whose line
ends are counted or hidden, unless nothing is left. -/
structure Adds (s : LexState) (text : List Char) (s' : LexState) (text' : List Char)
    (new : List (Nat × Nat)) (taken : List Char) : Prop where
  places : s'.places = s.places ++ new
  here : new = [] ∨ ∃ hidden, new = [(s.line, hidden)]
  text : text = taken ++ text'
  lines : text' = [] ∨ s'.line + hiddenIn new = s.line + newlinesOf taken

theorem Round.adds (h : Round s text s' text') (hs : s.WaitsAtStrings) :
    s'.WaitsAtStrings ∧ ∃ new taken, Adds s text s' text' new taken := by
  cases h with
  | @skip c rest extent hstep =>
    have hexact : CountsLines (c :: rest) extent := (isReadFrom_of_nextStep hstep).2
    refine ⟨hs, [], (c :: rest).take extent.length, ?_, .inl rfl,
      (take_append_drop _ _).symm, .inr ?_⟩
    · rw [append_nil]
      rfl
    · rw [← hexact]
      rfl
  | @lexeme c rest lexeme hstep =>
    have hexact := isReadFrom_of_nextStep hstep
    refine ⟨hs.push _, [(s.line, lexeme.token.hiddenLines)], (c :: rest).take lexeme.extent.length,
      s.places_push _, .inr ⟨_, rfl⟩, (take_append_drop _ _).symm, .inr ?_⟩
    rw [← hexact.newlines, ← Nat.add_assoc]
    rfl
  | @heredoc c rest opener length hstep =>
    have hexact : newlinesOf ((c :: rest).take length) = 0 :=
      (isReadFrom_of_nextStep hstep).2.2
    refine ⟨hs.openHeredoc opener, [(s.line, 0)], (c :: rest).take length, s.places_push _,
      .inr ⟨_, rfl⟩, (take_append_drop _ _).symm, .inr ?_⟩
    rw [hexact]
    rfl
  | @lineEnd c rest bodies hstep hbodies =>
    have hc : c = '\n' := Option.some.inj (isReadFrom_of_nextStep hstep)
    have hclosing := (bodiesRead_of_readBodies hbodies).closing
    rw [← s.pending_endLine] at hbodies
    have hplaces := places_fill hs.endLine hbodies
    obtain ⟨hline, hends⟩ := s.places_endLine
    -- no heredoc waits any more
    refine ⟨fun slot hslot => (not_mem_nil hslot).elim, ?_⟩
    -- one line for the line end, and those of the bodies
    have hlines : rest.drop bodies.extent.length = [] ∨ (s.endLine.fill bodies).line =
        s.line + newlinesOf (c :: rest.take bodies.extent.length) := by
      refine hclosing.imp_right fun hclosing => ?_
      rw [hc, newlinesOf_lineEnd, ← hclosing.1]
      change s.endLine.line + bodies.extent.newlines = _
      rw [hline]
      omega
    -- an empty line adds no token
    rcases hends with hends | hends
    · refine ⟨[], c :: rest.take bodies.extent.length, ?_, .inl rfl, ?_, hlines⟩
      · rw [hplaces, hends, append_nil]
      · rw [cons_append, take_append_drop]
    · refine ⟨[(s.line, 0)], c :: rest.take bodies.extent.length, ?_, .inr ⟨_, rfl⟩, ?_, hlines⟩
      · rw [hplaces, hends]
      · rw [cons_append, take_append_drop]

/-- What so many rounds add, by the same count. -/
theorem Rounds.adds (h : Rounds n s text s' text') (hs : s.WaitsAtStrings) :
    s'.WaitsAtStrings ∧ ∃ new taken, s'.places = s.places ++ new ∧ text = taken ++ text' ∧
      (text' = [] ∨ s'.line + hiddenIn new = s.line + newlinesOf taken) := by
  induction h with
  | none s text => exact ⟨hs, [], [], (append_nil _).symm, rfl, .inr rfl⟩
  | @more n s s' s'' text text' text'' hfirst hothers ih =>
    obtain ⟨hs', new, taken, hadds⟩ := hfirst.adds hs
    obtain ⟨hs'', others, more, hplaces, htext, hlines⟩ := ih hs'
    refine ⟨hs'', new ++ others, taken ++ more, ?_, ?_, ?_⟩
    · rw [hplaces, hadds.places, List.append_assoc]
    · rw [hadds.text, htext, List.append_assoc]
    · rcases hlines with hnil | hlines
      · exact .inl hnil
      rcases hadds.lines with hnil | hfirst
      -- nothing is left behind the first round, so nothing is left at all
      · rw [hnil] at htext
        exact .inl (append_eq_nil_iff.1 htext.symm).2
      · rw [hiddenIn_append, newlinesOf_append]
        exact .inr (by omega)

theorem waitsAtStrings_start (file : String) (line : Nat) : (start file line).WaitsAtStrings := by
  intro slot hslot
  cases hslot

/-- A token that is found is found in one of the rounds. -/
theorem Rounds.exists_round (h : Rounds n s text s' text') (hs : s.WaitsAtStrings) {i : Nat}
    (hlow : s.tokens.size ≤ i) (hhigh : i < s'.tokens.size) :
    ∃ k before rest after rest', Rounds k s text before rest ∧ Round before rest after rest' ∧
      before.tokens.size = i ∧ after.tokens.size = i + 1 := by
  induction h with
  | none s text => exact absurd hhigh (Nat.not_lt.2 hlow)
  | @more n s s' s'' text text' text'' hfirst hothers ih =>
    obtain ⟨hs', new, taken, hadds⟩ := hfirst.adds hs
    have hsize : s'.tokens.size = s.tokens.size + new.length := by
      rw [← length_places, hadds.places, length_append, length_places]
    by_cases hi : s'.tokens.size ≤ i
    · obtain ⟨k, before, rest, after, rest', hrounds, hfound⟩ := ih hs' hi hhigh
      exact ⟨k + 1, before, rest, after, rest', .more hfirst hrounds, hfound⟩
    · -- a round finds one token at most, so it is this one
      have hlength : new.length ≤ 1 := by
        rcases hadds.here with rfl | ⟨hidden, rfl⟩
        · exact Nat.zero_le 1
        · exact Nat.le_refl 1
      exact ⟨0, s, text, s', text', .none s text, hfirst, by omega, by omega⟩

end LexState

open LexState (Round Rounds)

/-- The token with the given index starts behind this part of the text: so many tokens are found
there, and the next round finds one more. -/
def TokenStarts (file : String) (line : Nat) (source : List Char) (i : Nat) (before : List Char) :
    Prop :=
  ∃ n s rest s' rest', source = before ++ rest ∧ Rounds n (.start file line) source s rest ∧
    Round s rest s' rest' ∧ s.tokens.size = i ∧ s'.tokens.size = i + 1

section Text

variable {file source : String} {line : Nat} {tokens : List Located} {i : Nat} {here : Located}

/-- Every token but the end of the input starts somewhere. -/
theorem exists_tokenStarts (h : lexFrom file line source = .ok tokens)
    (hhere : tokens[i]? = some here) (hdone : here.token ≠ .done) :
    ∃ before, TokenStarts file line source.toList i before := by
  obtain ⟨n, last, rest, hrounds, -, rfl⟩ := exists_rounds_lexFrom h
  -- the end of the input comes behind all that the rounds have found
  have hlt : i < last.tokens.size := by
    by_contra hge
    rw [getElem?_append_right (Nat.not_lt.1 hge)] at hhere
    exact hdone (by rw [mem_singleton.1 (mem_of_getElem? hhere)])
  obtain ⟨k, s, found, s', rest', hbefore, hround, hsizes⟩ :=
    hrounds.exists_round (LexState.waitsAtStrings_start file line) (Nat.zero_le i) hlt
  obtain ⟨before, hsource⟩ := hbefore.isSuffix
  exact ⟨before, k, s, found, s', rest', hsource.symm, hbefore, hround, hsizes⟩

/-- The rounds behind a token keep its place and the places before it. -/
theorem places_of_tokenStarts (h : lexFrom file line source = .ok tokens) {n : Nat}
    {s s' : LexState} {rest rest' : List Char}
    (hrounds : Rounds n (.start file line) source.toList s rest) (hround : Round s rest s' rest') :
    ∃ others, tokens.map Located.place = s'.places ++ others := by
  obtain ⟨last, hscan, -, rfl⟩ := lexFrom_eq_ok h
  have hs := (hrounds.adds (LexState.waitsAtStrings_start file line)).1
  obtain ⟨k, last', rest'', hothers, hends⟩ := LexState.exists_rounds_scan s' rest'
  rw [← hround.scan_eq, ← hrounds.scan_eq, hscan] at hends
  obtain ⟨rfl, -⟩ := hends
  obtain ⟨-, new, -, hplaces, -⟩ := hothers.adds (hround.adds hs).1
  refine ⟨new ++ [(last'.line, 0)], ?_⟩
  rw [Array.toList_push, map_append, ← List.append_assoc, ← hplaces]
  rfl

/-- The line of a token and the lines hidden before it are the line ends up to where it starts. -/
theorem line_add_hiddenLines (h : lexFrom file line source = .ok tokens)
    (hhere : tokens[i]? = some here) {before : List Char}
    (hstarts : TokenStarts file line source.toList i before) :
    here.line + hiddenLines (tokens.take i) = line + newlinesOf before := by
  obtain ⟨n, s, rest, s', rest', hsource, hrounds, hround, hsize, hsize'⟩ := hstarts
  obtain ⟨hs, new, taken, hplaces, htext, hlines⟩ :=
    hrounds.adds (LexState.waitsAtStrings_start file line)
  obtain ⟨-, found, _, hadds⟩ := hround.adds hs
  -- the token is the one that this round finds
  have hlength := congrArg List.length hadds.places
  rw [length_append, LexState.length_places, LexState.length_places, hsize, hsize'] at hlength
  obtain ⟨hidden, hfound⟩ := hadds.here.resolve_left fun hnil => by
    rw [hnil, length_nil] at hlength
    omega
  obtain ⟨others, hall⟩ := places_of_tokenStarts h hrounds hround
  rw [hadds.places, hfound, List.append_assoc] at hall
  have hi : s.places.length = i := by rw [LexState.length_places, hsize]
  have hline : here.line = s.line := by
    have hplace : (tokens.map Located.place)[i]? = some here.place := by
      rw [getElem?_map, hhere]
      rfl
    rw [hall, getElem?_append_right (Nat.le_of_eq hi), hi, Nat.sub_self] at hplace
    exact congrArg Prod.fst (Option.some.inj hplace).symm
  have hbefore : hiddenLines (tokens.take i) = hiddenIn new := by
    rw [hiddenLines, map_take, hall, take_left' hi, hplaces]
    rfl
  -- there is a round, so the text is not over
  rcases hlines with rfl | hlines
  · cases hround
  have htaken : before = taken := append_cancel_right (hsource.symm.trans htext)
  rw [hline, hbefore, hlines, htaken]
  rfl

/-- A token starts somewhere, and its line and the lines hidden before it are the line ends up to
there, from the line of the text on.  So the line is exact where no token before hides one. -/
theorem line_of_tokenStarts (h : lexFrom file line source = .ok tokens)
    (hhere : tokens[i]? = some here) (hdone : here.token ≠ .done) :
    (∃ before, TokenStarts file line source.toList i before) ∧
      ∀ before, TokenStarts file line source.toList i before →
        here.line + hiddenLines (tokens.take i) = line + newlinesOf before ∧
          (here.line = line + newlinesOf before ↔
            ∀ earlier ∈ tokens.take i, earlier.token.hiddenLines = 0) := by
  refine ⟨exists_tokenStarts h hhere hdone, fun before hstarts => ?_⟩
  have hlines := line_add_hiddenLines h hhere hstarts
  refine ⟨hlines, ?_⟩
  rw [← hiddenLines_eq_zero, ← hlines]
  omega

end Text

/-- The word behind a heredoc, a comment and a string over two lines is on the seventh line. -/
theorem line_behind_heredoc :
    lexFrom "Fastfile" 1 "p <<~A\n  b\nA\n=begin\n=end\n\"\n\" c" =
        .ok [⟨.word "p", 1, true⟩, ⟨.str [.text "b\n"], 1, true⟩, ⟨.newline, 1, false⟩,
          ⟨.str [.text "\n"], 6, true⟩, ⟨.word "c", 7, true⟩, ⟨.done, 7, true⟩] ∧
      (∃ before,
        TokenStarts "Fastfile" 1 "p <<~A\n  b\nA\n=begin\n=end\n\"\n\" c".toList 4 before) ∧
      ∀ before,
        TokenStarts "Fastfile" 1 "p <<~A\n  b\nA\n=begin\n=end\n\"\n\" c".toList 4 before →
          7 = 1 + newlinesOf before := by
  have htokens : lexFrom "Fastfile" 1 "p <<~A\n  b\nA\n=begin\n=end\n\"\n\" c" =
      .ok [⟨.word "p", 1, true⟩, ⟨.str [.text "b\n"], 1, true⟩, ⟨.newline, 1, false⟩,
        ⟨.str [.text "\n"], 6, true⟩, ⟨.word "c", 7, true⟩, ⟨.done, 7, true⟩] := by
    decide +kernel
  obtain ⟨hstarts, hlines⟩ := line_of_tokenStarts (i := 4) htokens rfl Token.noConfusion
  exact ⟨htokens, hstarts, fun before hbefore => (hlines before hbefore).1⟩

/-- Behind a regular expression over two lines a word of the second line is on the first. -/
theorem line_behind_regex :
    lexFrom "Fastfile" 1 "/\\\n/ a" =
        .ok [⟨.regex "\\\n" "", 1, true⟩, ⟨.word "a", 1, true⟩, ⟨.done, 1, true⟩] ∧
      ∃ before, TokenStarts "Fastfile" 1 "/\\\n/ a".toList 1 before ∧
        1 ≠ 1 + newlinesOf before := by
  have htokens : lexFrom "Fastfile" 1 "/\\\n/ a" =
      .ok [⟨.regex "\\\n" "", 1, true⟩, ⟨.word "a", 1, true⟩, ⟨.done, 1, true⟩] := by
    decide +kernel
  obtain ⟨before, hstarts⟩ := exists_tokenStarts (i := 1) htokens rfl Token.noConfusion
  have hlines : 1 + 1 = 1 + newlinesOf before := line_add_hiddenLines htokens rfl hstarts
  exact ⟨htokens, before, hstarts, by omega⟩

end LaneScript
