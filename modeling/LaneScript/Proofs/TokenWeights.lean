import LaneScript.Proofs.LexerRounds

/-!
# How much there is to read in the tokens of a text

The tokens of a text are read in turn, and so is the code in their strings, which is a text again.
`Token.weight` counts both, the token itself and the characters of its code.  A token is never
heavier than the text it is written with, and the bodies of heredocs are not heavier than their
lines, so that the tokens of a text weigh no more than its characters and the end of the input
(`tokensWeight_lexFrom_le`).  In particular the code in a string is shorter than the text in which
the string stands (`length_code_lt`).

The end of the input is a token too.  It is the last one, and the only one of its kind
(`endsOnce_lexFrom`).
-/

namespace LaneScript

open Literal
open List

/-! ### Weights -/

theorem Token.weight_pos (token : Token) : 0 < token.weight := by
  rw [token.weight_eq]
  omega

theorem tokensWeight_cons (here : Located) (tokens : List Located) :
    tokensWeight (here :: tokens) = here.token.weight + tokensWeight tokens := rfl

theorem tokensWeight_append (tokens others : List Located) :
    tokensWeight (tokens ++ others) = tokensWeight tokens + tokensWeight others := by
  induction tokens with
  | nil => exact (Nat.zero_add _).symm
  | cons here tokens ih =>
    rw [cons_append, tokensWeight_cons, ih, tokensWeight_cons, Nat.add_assoc]

theorem weight_le_tokensWeight {here : Located} {tokens : List Located} (h : here ∈ tokens) :
    here.token.weight ≤ tokensWeight tokens := by
  obtain ⟨before, behind, rfl⟩ := append_of_mem h
  rw [tokensWeight_append, tokensWeight_cons]
  omega

/-- The code among some parts is read with them. -/
theorem length_le_partsWeight {parts : List StringPart} {source : String} {line : Nat}
    (h : .code source line ∈ parts) : source.length + 2 ≤ partsWeight parts := by
  induction parts with
  | nil => cases h
  | cons part parts ih =>
    rw [partsWeight_cons]
    rcases mem_cons.1 h with rfl | h
    · exact Nat.le_add_right _ _
    · exact Nat.le_add_left_of_le (ih h)

/-- The code of a token is shorter than what there is to read in tokens with this one. -/
theorem length_le_tokensWeight_of_code {here : Located} {tokens : List Located}
    (hhere : here ∈ tokens) {source : String} {line : Nat}
    (hcode : .code source line ∈ here.token.parts) : source.length + 3 ≤ tokensWeight tokens := by
  have hweight := weight_le_tokensWeight hhere
  have hparts := length_le_partsWeight hcode
  rw [here.token.weight_eq] at hweight
  omega

/-! ### Rounds -/

/-- A change of one token makes the tokens no heavier than it makes that token. -/
theorem tokensWeight_modify_le {f : Located → Located} {extra : Nat}
    (hf : ∀ here, (f here).token.weight ≤ here.token.weight + extra) (tokens : List Located)
    (slot : Nat) : tokensWeight (tokens.modify slot f) ≤ tokensWeight tokens + extra := by
  induction tokens generalizing slot with
  | nil =>
    rw [modify_nil]
    exact Nat.le_add_right _ _
  | cons here tokens ih =>
    cases slot with
    | zero =>
      rw [modify_zero_cons, tokensWeight_cons, tokensWeight_cons]
      have hle := hf here
      omega
    | succ slot =>
      rw [modify_succ_cons, tokensWeight_cons, tokensWeight_cons]
      have hle := ih slot
      omega

namespace LexState

/-- How much there is to read in the tokens found so far. -/
def weight (s : LexState) : Nat := tokensWeight s.tokens.toList

variable {n : Nat} {s s' : LexState} {text text' : List Char}

theorem weight_push (s : LexState) (token : Token) :
    (s.push token).weight = s.weight + token.weight := by
  unfold weight push
  rw [Array.toList_push, tokensWeight_append]
  rfl

theorem weight_endLine_le (s : LexState) : s.endLine.weight ≤ s.weight + 1 := by
  unfold endLine
  dsimp only
  split
  · exact Nat.le_succ _
  · exact Nat.le_of_eq (s.weight_push .newline)

theorem weight_fill_le (s : LexState) (bodies : HeredocBodies) :
    (s.fill bodies).weight ≤ s.weight + bodiesWeight bodies.parts := by
  unfold weight fill
  dsimp only
  generalize s.tokens = tokens
  induction bodies.parts generalizing tokens with
  | nil => exact Nat.le_refl _
  | cons body others ih =>
    refine Nat.le_trans (ih _) ?_
    -- the body comes in the place of a token, which weighs something itself
    have hstr : ∀ here : Located, (Token.str body.2).weight ≤
        here.token.weight + partsWeight body.2 := by
      intro here
      have hpos := here.token.weight_pos
      change 1 + partsWeight body.2 ≤ _
      omega
    have hmodify := tokensWeight_modify_le (f := fun t => { t with token := .str body.2 })
      hstr tokens.toList body.1
    rw [Array.toList_modify]
    change _ ≤ _ + (partsWeight body.2 + bodiesWeight others)
    omega

/-- What a round adds to the tokens weighs no more than the text it takes. -/
theorem Round.weight_le (h : Round s text s' text') :
    s'.weight + text'.length ≤ s.weight + text.length := by
  cases h with
  | @skip c rest extent hstep =>
    change s.weight + _ ≤ _
    rw [length_drop]
    omega
  | @lexeme c rest lexeme hstep =>
    have hread := isReadFrom_of_nextStep hstep
    have hle := hread.extent.length_le
    have hweight := hread.weight_le
    change (s.push lexeme.token).weight + _ ≤ _
    rw [weight_push, length_drop]
    omega
  | @heredoc c rest opener length hstep =>
    have hread := isReadFrom_of_nextStep hstep
    have hpos : 0 < length := hread.1.length_pos
    have hle : length ≤ (c :: rest).length := hread.1.length_le
    change (s.push (.str [])).weight + _ ≤ _
    rw [weight_push, length_drop]
    change s.weight + 1 + _ ≤ _
    omega
  | @lineEnd c rest bodies hstep hbodies =>
    -- the line end pays for its own token, and the bodies are paid for by their lines
    have hend := s.weight_endLine_le
    have hfill := s.endLine.weight_fill_le bodies
    have hread := (bodiesRead_of_readBodies hbodies).weight_le
    rw [length_cons]
    omega

theorem Rounds.weight_le (h : Rounds n s text s' text') :
    s'.weight + text'.length ≤ s.weight + text.length := by
  induction h with
  | none s text => exact Nat.le_refl _
  | more hfirst hothers ih => exact Nat.le_trans ih hfirst.weight_le

/-- What holds of the tokens of lexemes, of strings and of line ends holds of all that a round
leaves, if it held before. -/
theorem Round.forall_mem {P : Token → Prop} (hproper : ∀ token : Token, token.IsProper → P token)
    (hstr : ∀ parts, P (.str parts)) (hnewline : P .newline) (h : Round s text s' text')
    (hs : ∀ here ∈ s.tokens, P here.token) : ∀ here ∈ s'.tokens, P here.token := by
  have hpush : ∀ {token : Token}, P token → ∀ here ∈ (s.push token).tokens, P here.token := by
    intro token htoken here hhere
    rcases Array.mem_push.1 hhere with hhere | rfl
    · exact hs here hhere
    · exact htoken
  cases h with
  | skip hstep => exact hs
  | lexeme hstep => exact hpush (hproper _ (isReadFrom_of_nextStep hstep).token)
  | heredoc hstep => exact hpush (hstr _)
  | lineEnd hstep hbodies =>
    refine forall_mem_fill (fun _ _ => hstr _) ?_
    unfold endLine
    dsimp only
    split
    · exact hs
    · exact hpush hnewline

theorem Rounds.forall_mem {P : Token → Prop} (hproper : ∀ token : Token, token.IsProper → P token)
    (hstr : ∀ parts, P (.str parts)) (hnewline : P .newline) (h : Rounds n s text s' text')
    (hs : ∀ here ∈ s.tokens, P here.token) : ∀ here ∈ s'.tokens, P here.token := by
  induction h with
  | none s text => exact hs
  | more hfirst hothers ih => exact ih (hfirst.forall_mem hproper hstr hnewline hs)

end LexState

/-! ### The tokens of a text -/

/-- The tokens end in the end of the input, which is nowhere before. -/
def EndsOnce (tokens : List Located) : Prop :=
  ∃ before last, tokens = before ++ [last] ∧ last.token = .done ∧
    ∀ here ∈ before, here.token ≠ .done

section Text

variable {file source : String} {line : Nat} {tokens : List Located}

/-- The tokens of a text weigh no more than its characters and the end of the input. -/
theorem tokensWeight_lexFrom_le (h : lexFrom file line source = .ok tokens) :
    tokensWeight tokens ≤ source.length + 1 := by
  obtain ⟨n, s, rest, hrounds, -, rfl⟩ := exists_rounds_lexFrom h
  have hle := hrounds.weight_le
  have hstart : (LexState.start file line).weight = 0 := rfl
  rw [hstart, String.length_toList] at hle
  rw [tokensWeight_append]
  change s.weight + 1 ≤ _
  omega

theorem endsOnce_lexFrom (h : lexFrom file line source = .ok tokens) : EndsOnce tokens := by
  obtain ⟨n, s, rest, hrounds, -, rfl⟩ := exists_rounds_lexFrom h
  have hnone := hrounds.forall_mem (P := (· ≠ .done)) (fun _ hproper => hproper.ne_done)
    (fun _ => Token.noConfusion) Token.noConfusion (by simp [LexState.start])
  exact ⟨s.tokens.toList, _, rfl, rfl, fun here hhere => hnone here (Array.mem_toList_iff.1 hhere)⟩

/-- The code in a string is shorter than the text in which the string stands. -/
theorem length_code_lt (h : lexFrom file line source = .ok tokens) {here : Located}
    (hhere : here ∈ tokens) {inner : String} {innerLine : Nat}
    (hcode : .code inner innerLine ∈ here.token.parts) : inner.length < source.length := by
  obtain ⟨before, last, rfl, hlast, -⟩ := endsOnce_lexFrom h
  have hle := tokensWeight_lexFrom_le h
  rw [tokensWeight_append] at hle
  rcases mem_append.1 hhere with hhere | hhere
  · have hcount := length_le_tokensWeight_of_code hhere hcode
    omega
  · rw [mem_singleton.1 hhere, hlast] at hcode
    cases hcode

end Text
end LaneScript
