import LaneScript.Proofs.LineLocality
import LaneScript.Proofs.TokenLines

/-!
# Texts one below the other

A text is read line by line: what is kept from one line for the next is the last token, which is a
line end, and nothing else.  So the tokens of two texts, the second on the line below the first, are
those of the first, the line end between the two and those of the second, and the second is at fault
on its own where the two are.

The rounds of the first text are rounds of both (`Rounds.append_line`).  Only the body of a heredoc
that the end of the first text closes takes the line end between the two with it; the line of its
opener has an end of its own.  Behind either the second text is read as it is at the start
(`follows_behind`): to a token a line end before it is as good as nothing, and the places of
heredocs move by the tokens before them.

This is of a text that is read to its end.  A line that ends the script ends it for all that is
below.
-/

namespace LaneScript

open Literal
open List

variable {s : LexState}

/-! ### The end of a line -/

/-- There is no token, or the last one is a line end. -/
def EndsLine (tokens : Array Located) : Prop :=
  tokens.back?.map (·.token) = none ∨ tokens.back?.map (·.token) = some .newline

/-- The places are those of tokens that are no line ends. -/
def HoldsPlaces (tokens : Array Located) (slots : List Nat) : Prop :=
  ∀ slot ∈ slots, ∃ here, tokens[slot]? = some here ∧ here.token ≠ .newline

theorem HoldsPlaces.push {tokens : Array Located} {slots : List Nat} (h : HoldsPlaces tokens slots)
    (last : Located) : HoldsPlaces (tokens.push last) slots := by
  intro slot hslot
  obtain ⟨here, hhere, hne⟩ := h slot hslot
  have hlt := (Array.getElem?_eq_some_iff.1 hhere).1
  refine ⟨here, ?_, hne⟩
  rw [Array.getElem?_push, if_neg (Nat.ne_of_lt hlt), hhere]

/-- A body in one place keeps the others, and the end of the line. -/
theorem HoldsPlaces.modify {tokens : Array Located} {slots : List Nat}
    (h : HoldsPlaces tokens slots) (slot : Nat) (parts : List StringPart) :
    HoldsPlaces (tokens.modify slot fun t => { t with token := .str parts }) slots := by
  intro slot' hslot'
  obtain ⟨here, hhere, hne⟩ := h slot' hslot'
  rw [Array.getElem?_modify, hhere]
  split
  · exact ⟨_, rfl, Token.noConfusion⟩
  · exact ⟨here, rfl, hne⟩

/-- A slot holds a literal, so the newline at the end is not touched. -/
theorem EndsLine.modify {tokens : Array Located} (h : EndsLine tokens) {slot : Nat}
    (hslot : HoldsPlaces tokens [slot]) (f : Located → Located) :
    EndsLine (tokens.modify slot f) := by
  obtain ⟨here, hhere, hne⟩ := hslot slot mem_cons_self
  unfold EndsLine at h ⊢
  rw [Array.back?_eq_getElem?] at h ⊢
  rw [Array.size_modify, Array.getElem?_modify]
  split
  -- the last token is a line end, so it is not the one that gets a body
  next hlast =>
    rw [← hlast, hhere] at h
    rcases h with h | h
    · cases h
    · exact absurd (Option.some.inj h) hne
  next => exact h

namespace LexState

theorem endsLine_endLine (s : LexState) : EndsLine s.endLine.tokens := by
  unfold endLine
  dsimp only
  split
  next hlast =>
    simp only [Bool.or_eq_true, beq_iff_eq] at hlast
    exact hlast
  next => exact .inr (by rw [push, Array.back?_push]; rfl)

theorem holdsPlaces_endLine {slots : List Nat} (h : HoldsPlaces s.tokens slots) :
    HoldsPlaces s.endLine.tokens slots := by
  unfold endLine
  dsimp only
  split
  · exact h
  · exact h.push _

/-- The bodies fill slots, and the line stays ended. -/
theorem endsLine_fill {bodies : HeredocBodies} (h : EndsLine s.tokens)
    (hplaces : HoldsPlaces s.tokens (bodies.parts.map (·.1))) :
    EndsLine (s.fill bodies).tokens := by
  unfold fill
  dsimp only
  generalize s.tokens = tokens at h hplaces
  generalize bodies.parts = found at hplaces
  -- one body after the other; each leaves the last token and the places of the next ones
  induction found generalizing tokens with
  | nil => exact h
  | cons body others ih =>
    obtain ⟨slot, parts⟩ := body
    rw [map_cons] at hplaces
    refine ih _ (h.modify ?_ _) ?_
    · exact fun slot' hslot' => hplaces slot' (mem_cons.2 (.inl (mem_singleton.1 hslot')))
    · refine HoldsPlaces.modify ?_ slot parts
      exact fun slot' hslot' => hplaces slot' (mem_cons_of_mem _ hslot')

/-- The heredocs that wait for their bodies have places that are no line ends. -/
def KeepsPlaces (s : LexState) : Prop := HoldsPlaces s.tokens (s.pending.map (·.slot))

/-- A line starts, and nothing is left open from the one before. -/
structure AtLineStart (s : LexState) : Prop where
  gap : s.gap = .lineStart
  pending : s.pending = []
  tokens : EndsLine s.tokens

variable {n : Nat} {s s' : LexState} {text text' : List Char}

theorem atLineStart_lineEnd {file : String} {line : Nat} {bodies : HeredocBodies}
    (hs : s.KeepsPlaces)
    (hbodies : readBodies file s.pending line text = .ok bodies) :
    (s.endLine.fill bodies).AtLineStart where
  gap := by
    unfold fill endLine
    dsimp only
  pending := rfl
  tokens := by
    refine endsLine_fill s.endsLine_endLine ?_
    rw [(bodiesRead_of_readBodies hbodies).slots]
    exact holdsPlaces_endLine hs

/-- A round opens slots for heredocs, or fills all of them. -/
theorem Round.keepsPlaces (h : Round s text s' text') (hs : s.KeepsPlaces) : s'.KeepsPlaces := by
  cases h with
  | skip hstep => exact hs
  | lexeme hstep => exact hs.push _
  | heredoc hstep =>
    -- its place is the one of the empty string that is pushed for it
    intro slot hslot
    rw [openHeredoc, map_append, mem_append] at hslot
    rcases hslot with hslot | hslot
    · exact hs.push _ slot hslot
    · rw [mem_singleton.1 hslot]
      exact ⟨_, Array.getElem?_push_size, Token.noConfusion⟩
  | lineEnd hstep hbodies =>
    intro slot hslot
    cases hslot

/-- No round goes back to an earlier line. -/
theorem Round.line_le (h : Round s text s' text') : s.line ≤ s'.line := by
  cases h with
  | skip hstep => exact Nat.le_add_right _ _
  | lexeme hstep => exact Nat.le_add_right _ _
  | heredoc hstep => exact Nat.le_refl _
  | lineEnd hstep hbodies =>
    -- the bodies of heredocs only add to the line that starts
    have hline : s.endLine.line = s.line + 1 := by
      unfold endLine
      rfl
    change s.line ≤ s.endLine.line + _
    omega

theorem Rounds.line_le (h : Rounds n s text s' text') : s.line ≤ s'.line := by
  induction h with
  | none s text => exact Nat.le_refl _
  | more hfirst hothers ih => exact Nat.le_trans hfirst.line_le ih

theorem Round.file_eq (h : Round s text s' text') : s'.file = s.file := by
  cases h with
  | lineEnd hstep hbodies => exact s.file_endLine
  | _ => rfl

/-- All rounds are read from one file. -/
theorem Rounds.file_eq (h : Rounds n s text s' text') : s'.file = s.file := by
  induction h with
  | none s text => rfl
  | more hfirst hothers ih => exact ih.trans hfirst.file_eq

/-! ### The rounds of the first text -/

section Append

variable (more : List Char)

/-- A round is one of both texts, up to the line end between them.  The end of the first text may
close a heredoc, and then the line end goes with it. -/
theorem Round.append_line (h : Round s text s' text') (hs : s.KeepsPlaces) :
    (Round s (text ++ '\n' :: more) s' (text' ++ '\n' :: more) ∧
        ∃ taken, taken ≠ [] ∧ text = taken ++ text' ∧ s'.gap = .behind taken) ∨
      text' = [] ∧ Round s (text ++ '\n' :: more) s' more ∧ s'.AtLineStart := by
  -- an extent of the text is one of both
  have hinside : ∀ {extent : Extent} {text : List Char}, extent.IsOf text →
      (text ++ '\n' :: more).drop extent.length = text.drop extent.length ++ '\n' :: more ∧
        text.take extent.length ≠ [] ∧
        text = text.take extent.length ++ text.drop extent.length := by
    intro extent text hextent
    have hpos := hextent.length_pos
    have hle := hextent.length_le
    refine ⟨drop_append_of_le_length hle, ?_, (take_append_drop _ _).symm⟩
    refine ne_nil_of_length_pos ?_
    rw [length_take]
    omega
  have hread : ∀ {c : Char} {rest : List Char} {step : Step},
      nextStep s.context s.line c rest = .ok step →
        nextStep s.context s.line c (rest ++ '\n' :: more) = .ok step ∧
          step.IsReadFrom s.line (c :: rest) := by
    exact fun hstep => ⟨keeps_nextStep more _ _ _ _ _ hstep, isReadFrom_of_nextStep hstep⟩
  cases h with
  | @skip c rest extent hstep =>
    obtain ⟨hstep', hextent⟩ := hread hstep
    obtain ⟨hdrop, hne, htext⟩ := hinside hextent.1
    have hround := Round.skip hstep'
    have hskip : s.skip (c :: (rest ++ '\n' :: more)) extent = s.skip (c :: rest) extent := by
      rw [LexState.skip, LexState.skip, ← cons_append,
        take_append_of_le_length hextent.1.length_le]
    rw [hskip, ← cons_append, hdrop] at hround
    exact .inl ⟨hround, _, hne, htext, rfl⟩
  | @lexeme c rest lexeme hstep =>
    obtain ⟨hstep', hlexeme⟩ := hread hstep
    obtain ⟨hdrop, hne, htext⟩ := hinside hlexeme.extent
    have hround := Round.lexeme hstep'
    rw [← cons_append, hdrop] at hround
    exact .inl ⟨hround, _, hne, htext, hlexeme.gap.symm⟩
  | @heredoc c rest opener length hstep =>
    obtain ⟨hstep', hextent, hgap, -⟩ := hread hstep
    obtain ⟨hdrop, hne, htext⟩ := hinside hextent
    have hround := Round.heredoc hstep'
    rw [← cons_append, hdrop] at hround
    exact .inl ⟨hround, _, hne, htext, hgap.symm⟩
  | @lineEnd c rest bodies hstep hbodies =>
    obtain ⟨hstep', hhead⟩ := hread hstep
    cases Option.some.inj hhead
    obtain ⟨hbodies', hclosed⟩ := readBodies_append more hbodies
    have hround := Round.lineEnd hstep' hbodies'
    have hstart := atLineStart_lineEnd hs hbodies
    cases hclosed with
    | inside hle hgap =>
      rw [drop_append_of_le_length hle] at hround
      refine .inl ⟨hround, '\n' :: rest.take bodies.extent.length, cons_ne_nil _ _, ?_, ?_⟩
      · rw [cons_append, take_append_drop]
      · have hline : Gap.behind ['\n'] = .lineStart := rfl
        rw [hstart.gap]
        exact (Gap.behind_append_lineStart hline hgap).symm
    | atEnd heq =>
      -- what the body reaches behind the first text is the line end between the two
      have hdrop : (rest ++ '\n' :: more).drop bodies.extent.length = more := by
        rw [heq, ← drop_drop, drop_left]
        rfl
      rw [hdrop] at hround
      exact .inr ⟨drop_eq_nil_of_le (by omega), hround, hstart⟩

/-- The rounds of a text are those of both, up to the line end between them or behind it. -/
theorem Rounds.append_line {before : List Char} (h : Rounds n s text s' []) (hs : s.KeepsPlaces)
    (hgap : s.gap = .behind before) :
    Rounds n s (text ++ '\n' :: more) s' ('\n' :: more) ∧ s'.gap = .behind (before ++ text) ∨
      Rounds n s (text ++ '\n' :: more) s' more ∧ s'.AtLineStart := by
  generalize hend : ([] : List Char) = last at h
  -- on the rounds, with the text before them for the gap that they leave
  induction h generalizing before with
  | none s text =>
    subst hend
    exact .inl ⟨.none _ _, (append_nil before).symm ▸ hgap⟩
  | more hfirst hothers ih =>
    subst hend
    rcases hfirst.append_line more hs with ⟨hround, taken, hne, rfl, htaken⟩ | ⟨rfl, hround, hstart⟩
    · rw [← Gap.behind_append before hne] at htaken
      rw [← List.append_assoc]
      refine (ih (hfirst.keepsPlaces hs) htaken rfl).imp ?_ ?_
      · exact fun h => ⟨.more hround h.1, h.2⟩
      · exact fun h => ⟨.more hround h.1, h.2⟩
    -- nothing is left for another round
    · cases hothers with
      | none s text => exact .inr ⟨.more hround (.none _ _), hstart⟩
      | more hnext _ => cases hnext

end Append

end LexState

/-! ### Behind other tokens -/

/-- The heredoc behind so many tokens more. -/
def PendingHeredoc.shift (count : Nat) (heredoc : PendingHeredoc) : PendingHeredoc :=
  { heredoc with slot := count + heredoc.slot }

/-- The bodies of heredocs behind so many tokens more. -/
def HeredocBodies.shift (count : Nat) (bodies : HeredocBodies) : HeredocBodies :=
  { bodies with parts := bodies.parts.map (Prod.map (count + ·) id) }

theorem readBodies_shift {file : String} (count : Nat) (pending : List PendingHeredoc) (line : Nat)
    (text : List Char) :
    readBodies file (pending.map (·.shift count)) line text =
      (readBodies file pending line text).map (·.shift count) := by
  induction pending generalizing line text with
  | nil => rfl
  | cons heredoc others ih =>
    rw [map_cons, readBodies, readBodies]
    have hopener : (heredoc.shift count).opener = heredoc.opener := rfl
    rw [hopener]
    cases heredocLines? heredoc.opener text with
    | none => rfl
    | some found =>
      dsimp only
      cases heredoc.opener.parts line found.1 with
      | error fault => rfl
      | ok parts =>
        dsimp only
        rw [ih]
        cases readBodies file others (line + found.1.length + 1) (text.drop found.2) <;> rfl

/-- To what comes next, a line end before it is as good as nothing. -/
theorem nextStep_newline (gap : Gap) (line : Nat) (c : Char) (rest : List Char) :
    nextStep ⟨some .newline, gap⟩ line c rest = nextStep ⟨none, gap⟩ line c rest := rfl

namespace LexState

/-- The state with other tokens before its own. -/
def behind (before : Array Located) (s : LexState) : LexState :=
  { s with tokens := before ++ s.tokens, pending := s.pending.map (·.shift before.size) }

/-- At the start of a line only the tokens before are left of the text before. -/
theorem AtLineStart.eq_behind (h : s.AtLineStart) : s = (start s.file s.line).behind s.tokens := by
  obtain ⟨_, tokens, gap, line, pending⟩ := s
  obtain ⟨rfl, rfl, -⟩ := h
  unfold start behind
  rw [Array.append_empty]
  rfl

theorem take_behind (before : Array Located) (s : LexState) (lexeme : Lexeme) :
    (s.behind before).take lexeme = (s.take lexeme).behind before := by
  unfold take push behind
  rw [Array.append_push]

theorem openHeredoc_behind (before : Array Located) (s : LexState) (opener : HeredocOpener) :
    (s.behind before).openHeredoc opener = (s.openHeredoc opener).behind before := by
  unfold openHeredoc push behind
  simp only [Array.append_push, map_append, Array.size_append]
  rfl

/-- A slot among the later tokens. -/
theorem modify_append (before tokens : Array Located) (slot : Nat) (f : Located → Located) :
    (before ++ tokens).modify (before.size + slot) f = before ++ tokens.modify slot f := by
  apply Array.ext_getElem?
  intro i
  rw [Array.getElem?_modify, Array.getElem?_append, Array.getElem?_append, Array.getElem?_modify]
  split
  next heq =>
    subst heq
    -- the place is behind the tokens before, so it is found among the others
    rw [if_neg (by omega), if_neg (by omega), Nat.add_sub_cancel_left, if_pos rfl]
  next hne =>
    split
    · rfl
    · rw [if_neg (by omega)]

theorem foldl_modify_append (before : Array Located) (f : List StringPart → Located → Located)
    (parts : List (Nat × List StringPart)) (tokens : Array Located) :
    (parts.map (Prod.map (before.size + ·) id)).foldl
        (fun tokens (slot, parts) => tokens.modify slot (f parts)) (before ++ tokens) =
      before ++ parts.foldl (fun tokens (slot, parts) => tokens.modify slot (f parts)) tokens := by
  induction parts generalizing tokens with
  | nil => rfl
  | cons body parts ih =>
    rw [map_cons, foldl_cons, foldl_cons, ← ih]
    congr 1
    exact modify_append before tokens body.1 _

theorem fill_behind (before : Array Located) (s : LexState) (bodies : HeredocBodies) :
    (s.behind before).fill (bodies.shift before.size) = (s.fill bodies).behind before := by
  have htokens := foldl_modify_append before (fun parts t => { t with token := .str parts })
  unfold fill behind HeredocBodies.shift
  simp only [htokens]
  rfl

section Behind

variable {before : Array Located} (hbefore : EndsLine before)
include hbefore

theorem last_behind (s : LexState) :
    (s.behind before).context.last = s.context.last ∨
      s.context.last = none ∧ (s.behind before).context.last = some .newline := by
  unfold context behind
  dsimp only
  rw [Array.back?_append]
  cases hlast : s.tokens.back? with
  | some last => exact .inl rfl
  | none => exact hbefore.imp id fun hnewline => ⟨rfl, hnewline⟩

/-- A newline before changes the next step no more than nothing before. -/
theorem nextStep_behind (s : LexState) (c : Char) (rest : List Char) :
    nextStep (s.behind before).context (s.behind before).line c rest =
      nextStep s.context s.line c rest := by
  have hcontext : ∀ s : LexState, s.context = ⟨s.context.last, s.gap⟩ := fun _ => rfl
  rw [hcontext (s.behind before), hcontext s]
  rcases last_behind hbefore s with hlast | ⟨hnone, hnewline⟩
  · rw [hlast]
    rfl
  · rw [hnone, hnewline]
    exact nextStep_newline _ _ c rest

theorem endLine_behind (s : LexState) : (s.behind before).endLine = s.endLine.behind before := by
  -- the line is closed unless it is empty, and tokens before it end with a newline
  have hlast : ((s.behind before).context.last == none ||
      (s.behind before).context.last == some .newline) =
        (s.context.last == none || s.context.last == some .newline) := by
    rcases last_behind hbefore s with hlast | ⟨hnone, hnewline⟩
    · rw [hlast]
    · rw [hnone, hnewline]
      rfl
  unfold context at hlast
  unfold endLine
  simp only [hlast]
  split
  · rfl
  · unfold push behind
    rw [Array.append_push]

/-- What is read behind other lines is read as at the start. -/
theorem follows_behind : Follows (behind before) id where
  round {s s' text text'} h := by
    cases h with
    | skip hstep => exact .skip ((nextStep_behind hbefore s _ _).trans hstep)
    | @lexeme c rest lexeme hstep =>
      rw [← take_behind]
      exact .lexeme ((nextStep_behind hbefore s c rest).trans hstep)
    | @heredoc c rest opener length hstep =>
      rw [← openHeredoc_behind]
      exact .heredoc ((nextStep_behind hbefore s c rest).trans hstep)
    | @lineEnd c rest bodies hstep hbodies =>
      have hread : readBodies s.file (s.behind before).pending (s.line + 1) rest =
          .ok (bodies.shift before.size) :=
        (readBodies_shift _ _ _ _).trans (congrArg (Except.map _) hbodies)
      rw [← fill_behind, ← endLine_behind hbefore]
      exact .lineEnd ((nextStep_behind hbefore s c rest).trans hstep) hread
  halts {s text} h := by
    cases text with
    | nil => trivial
    | cons c rest => exact (nextStep_behind hbefore s c rest).trans h
  fails {s failure text} h := by
    cases text with
    | nil => exact h.elim
    | cons c rest =>
      have hstep := nextStep_behind hbefore s c rest
      refine h.imp (fun h => ⟨hstep.trans h.1, h.2⟩) fun h => ⟨hstep.trans h.1, ?_⟩
      exact (readBodies_shift _ _ _ _).trans (congrArg (Except.map _) h.2)

end Behind

end LexState

/-! ### The tokens of both texts -/

/-- Some tokens with the end of their line: one that is there already is enough, and without a token
there is none. -/
def closeLine (line : Nat) (spaced : Bool) (tokens : List Located) : List Located :=
  if tokens.isEmpty || tokens.getLast?.map (·.token) == some .newline then tokens
  else tokens ++ [⟨.newline, line, spaced⟩]

theorem LexState.toList_tokens_endLine (s : LexState) :
    s.endLine.tokens.toList = closeLine s.line s.gap.isSpaced s.tokens.toList := by
  -- no last token means no token
  have hempty : (s.tokens.back?.map (·.token) == none) = s.tokens.toList.isEmpty := by
    rw [← Array.getLast?_toList]
    cases hlist : s.tokens.toList with
    | nil => rfl
    | cons first others =>
      rw [getLast?_cons]
      rfl
  unfold endLine closeLine
  dsimp only
  rw [hempty, ← Array.getLast?_toList]
  split
  · rfl
  · rw [push, Array.toList_push]

/-- A line that is ended is not ended again. -/
theorem closeLine_of_endsLine {tokens : Array Located} (h : EndsLine tokens) (line : Nat)
    (spaced : Bool) : closeLine line spaced tokens.toList = tokens.toList := by
  unfold EndsLine at h
  rw [← Array.getLast?_toList, Option.map_eq_none_iff, getLast?_eq_none_iff] at h
  unfold closeLine
  rcases h with hnil | hnewline
  · rw [hnil]
    rfl
  · rw [hnewline]
    simp

theorem nextStep_lineEnd (context : Context) (line : Nat) (rest : List Char) :
    nextStep context line '\n' rest = .ok .lineEnd := by
  obtain ⟨last, gap⟩ := context
  cases gap <;> rfl

/-- Behind a text that is read to its end, and the line end below it, a line starts. -/
theorem scan_append_line {file : String} {line n : Nat} {text : List Char}
    (h : LexState.Rounds n (.start file line) text s []) (hpending : s.pending = [])
    (more : List Char) :
    ∃ s' : LexState, s'.AtLineStart ∧ s'.file = file ∧ line ≤ s'.line ∧
      s'.tokens.toList = closeLine s.line (Gap.behind text).isSpaced s.tokens.toList ∧
      scan (.start file line) (text ++ '\n' :: more) = scan s' more := by
  have hline := h.line_le
  have hfile := h.file_eq
  have hstartPlaces : (LexState.start file line).KeepsPlaces := fun _ hslot => by cases hslot
  have hstartGap : (LexState.start file line).gap = .behind [] := rfl
  rcases h.append_line more hstartPlaces hstartGap with ⟨hrounds, hgap⟩ | ⟨hrounds, hstart⟩
  -- no heredoc waits, so the line end between the two is a round of its own
  · have hplaces : s.KeepsPlaces := by
      intro slot hslot
      rw [hpending] at hslot
      cases hslot
    have hbodies : readBodies s.file s.pending (s.line + 1) more = .ok ⟨[], ⟨0, 0⟩⟩ := by
      rw [hpending]
      rfl
    have hround := LexState.Round.lineEnd (nextStep_lineEnd s.context s.line more) hbodies
    refine ⟨_, LexState.atLineStart_lineEnd hplaces hbodies, hround.file_eq.trans hfile,
      Nat.le_trans hline hround.line_le, ?_, hrounds.scan_eq.trans hround.scan_eq⟩
    rw [nil_append] at hgap
    rw [← hgap]
    exact s.toList_tokens_endLine
  · exact ⟨s, hstart, hfile, hline, (closeLine_of_endsLine hstart.tokens _ _).symm, hrounds.scan_eq⟩

/-- At the start of a line a text is read as on its own, behind the tokens before it. -/
theorem lexFrom_of_atLineStart {line : Nat} {source b : String} (hs : s.AtLineStart)
    (h : scan (.start s.file line) source.toList = scan s b.toList) :
    lexFrom s.file line source = (lexFrom s.file s.line b).map (s.tokens.toList ++ ·) := by
  have hscan := (LexState.follows_behind hs.tokens).scan_eq (.start s.file s.line) b.toList
  rw [← hs.eq_behind] at hscan
  rw [lexFrom, lexFrom, h, hscan]
  cases scan (.start s.file s.line) b.toList with
  | error failure => rfl
  | ok last =>
    obtain ⟨_, tokens, gap, line, pending⟩ := last
    -- a heredoc that is still open fails in both
    cases pending with
    | cons heredoc others => rfl
    | nil =>
      refine congrArg Except.ok ?_
      change ((s.tokens ++ tokens).push _).toList = s.tokens.toList ++ (tokens.push _).toList
      rw [← Array.append_push, Array.toList_append]
      rfl

/-! ### The line that ends a script -/

/-- A line of the text ends the script before the text is over. -/
def StopsAtMarker (file : String) (line : Nat) (source : String) : Prop :=
  ∃ n s c rest, LexState.Rounds n (.start file line) source.toList s (c :: rest) ∧
    nextStep s.context s.line c rest = .ok .stop

/-- A text that stops has the marker in it. -/
theorem infix_of_stopsAtMarker {file source : String} {line : Nat}
    (h : StopsAtMarker file line source) :
    "__END__".toList <:+: source.toList := by
  obtain ⟨n, s, c, rest, hrounds, hstep⟩ := h
  have hprefix := isPrefixOf_iff_prefix.1
    (Bool.and_eq_true_iff.1 (LexState.isReadFrom_of_nextStep hstep)).1
  exact hprefix.isInfix.trans hrounds.isSuffix.isInfix

/-! ### Both texts -/

/-- Two texts, one below the other, are read as the first and then the second: the tokens are those
of the first without the end of the input, the line end between the two and those of the second,
some lines further down.  They are at fault where the second is. -/
theorem lexFrom_append_line {file : String} {line : Nat} {a : String} {tokens : List Located}
    (h : lexFrom file line a = .ok tokens) (hmarker : ¬ StopsAtMarker file line a) (b : String) :
    ∃ k last, lexFrom file line (a ++ "\n" ++ b) =
      mapResult ⟨file, k⟩ (fun others =>
        closeLine last (Gap.behind a.toList).isSpaced tokens.dropLast ++
          others.map (·.mapLines (· + k))) (lexFrom file line b) := by
  obtain ⟨s, hscan, hpending, rfl⟩ := lexFrom_eq_ok h
  obtain ⟨n, s', rest, hrounds, hends⟩ := LexState.exists_rounds_scan (.start file line) a.toList
  rw [hscan] at hends
  obtain ⟨rfl, hhalts⟩ := hends
  -- the reading of the first text stops at its end, since no marker does it
  cases rest with
  | cons c rest => exact absurd ⟨n, s', c, rest, hrounds, hhalts⟩ hmarker
  | nil =>
    obtain ⟨below, hbelow, hfile, hline, htokens, hscan'⟩ :=
      scan_append_line hrounds hpending b.toList
    subst hfile
    obtain ⟨k, hk⟩ := Nat.exists_eq_add_of_le hline
    have hjoined : scan (.start below.file line) (a ++ "\n" ++ b).toList = scan below b.toList := by
      rw [String.toList_append, String.toList_append, List.append_assoc]
      exact hscan'
    refine ⟨k, s'.line, ?_⟩
    have hmoved := lexFrom_moved ⟨below.file, k⟩ below.file line b
    rw [lexFrom_of_atLineStart hbelow hjoined, hk, hmoved, Array.toList_push,
      dropLast_concat, ← htokens]
    cases lexFrom below.file line b <;> rfl

/-- A heredoc that the end of the first text closes, and a slash below it that does not divide. -/
theorem lexFrom_append_line_heredoc :
    lexFrom "Fastfile" 1 "puts <<~A\n  b\nA" =
      .ok [⟨.word "puts", 1, true⟩, ⟨.str [.text "b\n"], 1, true⟩,
        ⟨.newline, 1, false⟩, ⟨.done, 4, true⟩] ∧
      ¬ StopsAtMarker "Fastfile" 1 "puts <<~A\n  b\nA" ∧
      ∃ k last, lexFrom "Fastfile" 1 ("puts <<~A\n  b\nA" ++ "\n" ++ "/c/ << x") =
        mapResult ⟨"Fastfile", k⟩ (fun others =>
          closeLine last (Gap.behind "puts <<~A\n  b\nA".toList).isSpaced
              [⟨.word "puts", 1, true⟩, ⟨.str [.text "b\n"], 1, true⟩, ⟨.newline, 1, false⟩] ++
            others.map (·.mapLines (· + k))) (lexFrom "Fastfile" 1 "/c/ << x") := by
  have htokens : lexFrom "Fastfile" 1 "puts <<~A\n  b\nA" = .ok [⟨.word "puts", 1, true⟩,
      ⟨.str [.text "b\n"], 1, true⟩, ⟨.newline, 1, false⟩, ⟨.done, 4, true⟩] := by
    decide +kernel
  have hmarker : ¬ StopsAtMarker "Fastfile" 1 "puts <<~A\n  b\nA" :=
    fun h => absurd (infix_of_stopsAtMarker h) (by decide +kernel)
  exact ⟨htokens, hmarker, lexFrom_append_line htokens hmarker "/c/ << x"⟩

end LaneScript
